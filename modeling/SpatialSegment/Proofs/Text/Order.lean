import Mathlib.Tactic.Common
import SpatialSegment.Text.Utf8

/-!
# The order of texts

The comparison of texts by their bytes is a linear order: only equal texts are equal in it, turning
a comparison round turns its outcome round, and being less carries over.
-/

namespace SpatialSegment

namespace Text

theorem compareBytes_self (as : Bytes) : compareBytes as as = .eq := by
  induction as with
  | nil => rfl
  | cons a as ih =>
    rw [compareBytes, if_neg (UInt8.lt_irrefl a), if_neg (UInt8.lt_irrefl a), ih]

theorem eq_of_compareBytes {as bs : Bytes} (h : compareBytes as bs = .eq) : as = bs := by
  induction as generalizing bs with
  | nil =>
    cases bs with
    | nil => rfl
    | cons b bs => cases h
  | cons a as ih =>
    cases bs with
    | nil => cases h
    | cons b bs =>
      rw [compareBytes] at h
      by_cases hlt : a < b
      · rw [if_pos hlt] at h
        cases h
      · by_cases hgt : b < a
        · rw [if_neg hlt, if_pos hgt] at h
          cases h
        · rw [if_neg hlt, if_neg hgt] at h
          have hab : a = b := UInt8.le_antisymm (UInt8.not_lt.mp hgt) (UInt8.not_lt.mp hlt)
          rw [hab, ih h]

theorem compareBytes_swap (as bs : Bytes) : (compareBytes as bs).swap = compareBytes bs as := by
  induction as generalizing bs with
  | nil => cases bs <;> rfl
  | cons a as ih =>
    cases bs with
    | nil => rfl
    | cons b bs =>
      rw [compareBytes, compareBytes]
      by_cases hlt : a < b
      · rw [if_pos hlt, if_neg (UInt8.lt_asymm hlt), if_pos hlt]
        rfl
      · by_cases hgt : b < a
        · rw [if_neg hlt, if_pos hgt, if_pos hgt]
          rfl
        · rw [if_neg hlt, if_neg hgt, if_neg hgt, if_neg hlt, ih]

theorem compareBytes_cons_lt {a b : UInt8} {as bs : Bytes} :
    compareBytes (a :: as) (b :: bs) = .lt ↔ a < b ∨ a = b ∧ compareBytes as bs = .lt := by
  rw [compareBytes]
  by_cases hlt : a < b
  · simp [hlt]
  · by_cases hgt : b < a
    · have hne : a ≠ b := (UInt8.ne_of_lt hgt).symm
      simp [hlt, hgt, hne]
    · have hab : a = b := UInt8.le_antisymm (UInt8.not_lt.mp hgt) (UInt8.not_lt.mp hlt)
      simp [hab]

theorem compareBytes_lt_trans {as bs cs : Bytes} (hab : compareBytes as bs = .lt)
    (hbc : compareBytes bs cs = .lt) : compareBytes as cs = .lt := by
  induction as generalizing bs cs with
  | nil =>
    cases cs with
    | nil => cases bs <;> cases hbc
    | cons c cs => rfl
  | cons a as ih =>
    cases bs with
    | nil => cases hab
    | cons b bs =>
      cases cs with
      | nil => cases hbc
      | cons c cs =>
        rcases compareBytes_cons_lt.mp hab with hlt | ⟨rfl, hrest⟩
        · rcases compareBytes_cons_lt.mp hbc with hlt' | ⟨rfl, -⟩
          · exact compareBytes_cons_lt.mpr (Or.inl (UInt8.lt_trans hlt hlt'))
          · exact compareBytes_cons_lt.mpr (Or.inl hlt)
        · rcases compareBytes_cons_lt.mp hbc with hlt' | ⟨rfl, hrest'⟩
          · exact compareBytes_cons_lt.mpr (Or.inl hlt')
          · exact compareBytes_cons_lt.mpr (Or.inr ⟨rfl, ih hrest hrest'⟩)

@[simp] theorem compare_self (s : String) : compare s s = .eq := compareBytes_self (bytes s)

theorem compare_eq_iff {s t : String} : compare s t = .eq ↔ s = t :=
  ⟨fun h => bytes_injective (eq_of_compareBytes h), fun h => h ▸ compare_self s⟩

theorem compare_swap (s t : String) : (compare s t).swap = compare t s :=
  compareBytes_swap (bytes s) (bytes t)

theorem compare_gt_iff {s t : String} : compare s t = .gt ↔ compare t s = .lt := by
  rw [← compare_swap s t]
  cases compare s t <;> decide

theorem compare_lt_trans {s t u : String} (hst : compare s t = .lt) (htu : compare t u = .lt) :
    compare s u = .lt :=
  compareBytes_lt_trans hst htu

/-- The first text does not come after the second one. -/
def NotAfter (s t : String) : Prop := compare s t ≠ .gt

theorem NotAfter.lt_of_ne {s t : String} (h : NotAfter s t) (hne : s ≠ t) : compare s t = .lt := by
  cases hcompare : compare s t with
  | lt => rfl
  | eq => exact absurd (compare_eq_iff.mp hcompare) hne
  | gt => exact absurd hcompare h

theorem notAfter_of_lt {s t : String} (h : compare s t = .lt) : NotAfter s t := by
  intro hgt
  rw [h] at hgt
  cases hgt

theorem NotAfter.refl (s : String) : NotAfter s s := by
  intro hgt
  rw [compare_self] at hgt
  cases hgt

theorem NotAfter.trans {s t u : String} (hst : NotAfter s t) (htu : NotAfter t u) :
    NotAfter s u := by
  by_cases hs : s = t
  · exact hs ▸ htu
  · by_cases hu : t = u
    · exact hu ▸ hst
    · exact notAfter_of_lt (compare_lt_trans (hst.lt_of_ne hs) (htu.lt_of_ne hu))

theorem NotAfter.total (s t : String) : NotAfter s t ∨ NotAfter t s := by
  by_cases h : compare s t = .gt
  · exact Or.inr (notAfter_of_lt (compare_gt_iff.mp h))
  · exact Or.inl h

/-- A text that comes before another one is not behind it and not equal to it. -/
theorem not_notAfter_of_lt {s t : String} (h : compare s t = .lt) : ¬ NotAfter t s := by
  intro hts
  exact hts (compare_gt_iff.mpr h)

end Text

end SpatialSegment
