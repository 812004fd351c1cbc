import Mathlib.Order.Lattice
import Mathlib.Tactic.Common
import SpatialSegment.RTree.Choice

/-!
# The order of areas and the first least element

All codes of 64 bits are in one line: those with the sign bit from the greatest magnitude to the
least, then those without it from the least to the greatest. Areas are compared in that line. It is
an assumption that an operation on areas without a number as its result gives the code with the sign
bit whose exponent and first bit of the mantissa are set: machines of x86-64 do so, the standard of
floating-point arithmetic leaves the sign bit open. That code is in front of the infinities and of
all numbers. So any two areas compare, and they compare like their ranks.

The first least element of a list is the one where the list parts into elements that go behind it
and elements that do not go before it.
-/

namespace SpatialSegment

namespace Coord

/-- The place of a code in the line of all codes. -/
def linePlace (c : Coord) : Int :=
  if c.negative then -(c.magnitude : Int) - 1 else c.magnitude

theorem linePlace_injective {a b : Coord} (h : a.linePlace = b.linePlace) : a = b := by
  have ha := a.bits.toNat_lt
  have hb := b.bits.toNat_lt
  simp only [linePlace, negative, magnitude, decide_eq_true_eq] at h
  have hbits : a.bits.toNat = b.bits.toNat := by
    split at h <;> split at h <;> unfold signBit at * <;> omega
  cases a
  cases b
  exact congrArg Coord.mk (UInt64.toNat_inj.mp hbits)

theorem le_linePlace {c : Coord} (h : c.isNaN = false) :
    -(infiniteMagnitude : Int) - 1 ≤ c.linePlace := by
  simp only [isNaN, decide_eq_false_iff_not] at h
  unfold linePlace
  split <;> omega

end Coord

/-- The code that a result is assumed to have if it is not a number. -/
def undefinedArea : Coord := ⟨0xfff8000000000000⟩

def areaCode (x : Float) : Coord :=
  if (Coord.ofFloat x).isNaN then undefinedArea else Coord.ofFloat x

/-- The comparison of two areas by the places of their codes in the line. -/
def compareAreas (x y : Float) : Ordering :=
  compare (areaCode x).linePlace (areaCode y).linePlace

theorem areaRank_of_isNaN {x : Float} (h : (Coord.ofFloat x).isNaN = true) :
    areaRank x = -(Coord.signBit : Int) :=
  if_pos h

theorem areaRank_of_number {x : Float} (h : (Coord.ofFloat x).isNaN = false) :
    areaRank x = (Coord.ofFloat x).linePlace := by
  simp only [areaRank, h, Bool.false_eq_true, if_false, Coord.linePlace]

/-- Ranks keep the order of the line. -/
theorem compareAreas_eq (x y : Float) : compareAreas x y = compare (areaRank x) (areaRank y) := by
  have hundefined : undefinedArea.linePlace = -(0x7ff8000000000000 : Int) - 1 := by decide
  have hinfinite : (Coord.infiniteMagnitude : Int) = 0x7ff0000000000000 := rfl
  have hsign : (Coord.signBit : Int) = 0x8000000000000000 := rfl
  unfold compareAreas areaCode
  cases hx : (Coord.ofFloat x).isNaN with
  | true =>
    cases hy : (Coord.ofFloat y).isNaN with
    | true => rw [areaRank_of_isNaN hx, areaRank_of_isNaN hy]; simp
    | false =>
      have hle := Coord.le_linePlace hy
      rw [areaRank_of_isNaN hx, areaRank_of_number hy, if_pos rfl, if_neg Bool.false_ne_true,
        compare_lt_iff_lt.mpr (by omega), compare_lt_iff_lt.mpr (by omega)]
  | false =>
    have hle := Coord.le_linePlace hx
    rw [areaRank_of_number hx, if_neg Bool.false_ne_true]
    cases hy : (Coord.ofFloat y).isNaN with
    | true =>
      rw [areaRank_of_isNaN hy, if_pos rfl, compare_gt_iff_gt.mpr (by omega),
        compare_gt_iff_gt.mpr (by omega)]
    | false => rw [areaRank_of_number hy, if_neg Bool.false_ne_true]

/-- Elements in front of the first least one have a greater rank, and none behind it has a lesser
one. -/
theorem exists_of_firstLeast {α ι : Type} [LinearOrder ι] {before : α → α → Bool} (rank : α → ι)
    (hbefore : ∀ x y, before x y = true ↔ rank x < rank y) {xs : List α} {a : α}
    (h : firstLeast before xs = some a) :
    ∃ front back, xs = front ++ a :: back ∧ (∀ x ∈ front, rank a < rank x) ∧
      ∀ x ∈ back, rank a ≤ rank x := by
  cases xs with
  | nil => cases h
  | cons y ys =>
    simp only [firstLeast, Option.some.injEq] at h
    induction ys generalizing y with
    | nil => exact ⟨[], [], by rw [← h]; rfl, by simp, by simp⟩
    | cons z zs ih =>
      rw [List.foldl_cons] at h
      split at h
      · rename_i hz
        -- What was best so far goes behind `z`, and so behind the least of the rest.
        obtain ⟨front, back, heq, hfront, hback⟩ := ih z h
        have hle : rank a ≤ rank z := by
          have hmem : z ∈ front ++ a :: back := heq ▸ List.mem_cons_self
          rcases List.mem_append.mp hmem with hmem | hmem
          · exact (hfront z hmem).le
          · rcases List.mem_cons.mp hmem with rfl | hmem
            · exact le_refl _
            · exact hback z hmem
        refine ⟨y :: front, back, by rw [heq]; rfl, ?_, hback⟩
        exact List.forall_mem_cons.mpr ⟨hle.trans_lt ((hbefore z y).mp hz), hfront⟩
      · rename_i hz
        obtain ⟨front, back, heq, hfront, hback⟩ := ih y h
        have hyz : rank y ≤ rank z := not_lt.mp fun hlt => hz ((hbefore z y).mpr hlt)
        cases front with
        | nil =>
          obtain ⟨rfl, rfl⟩ := List.cons.inj heq
          exact ⟨[], z :: zs, rfl, by simp, List.forall_mem_cons.mpr ⟨hyz, hback⟩⟩
        | cons w front =>
          obtain ⟨rfl, rfl⟩ := List.cons.inj heq
          obtain ⟨hy, hfront⟩ := List.forall_mem_cons.mp hfront
          exact ⟨y :: z :: front, back, rfl,
            List.forall_mem_cons.mpr ⟨hy, List.forall_mem_cons.mpr ⟨hy.trans_le hyz, hfront⟩⟩,
            hback⟩

end SpatialSegment
