import Mathlib.Data.List.Forall2
import SpatialSegment.Proofs.KeyIndex.Duplicates

/-!
# A search finds no other key

Where the keys are not in order a search may miss some of them, but it looks at each key that it
answers with: around a position that has the key it goes on only over equal ones. So the positions
that it gives are neighbours, and each of them has the key that was looked for.
-/

namespace SpatialSegment

namespace KeySearch

variable {ε : Type} {keyAt : Nat → Except ε (Option String)} {key : String}

/-- From the start of a run on all keys are equal. -/
theorem keyAt_of_runStart {position first : Nat}
    (h : runStart keyAt key position = .ok (some first)) :
    first ≤ position ∧ ∀ i, first ≤ i → i < position → keyAt i = .ok (some key) := by
  induction position with
  | zero =>
    cases h
    exact ⟨Nat.le_refl 0, fun i _ hi => absurd hi (Nat.not_lt_zero i)⟩
  | succ position ih =>
    rw [runStart] at h
    obtain ⟨found, hfound, h⟩ := bind_eq_ok.mp h
    cases found with
    | none => cases h
    | some previous =>
      by_cases heq : previous = key
      · simp only [if_pos heq] at h
        obtain ⟨hle, hrun⟩ := ih h
        refine ⟨by omega, fun i hfirst hi => ?_⟩
        rcases Nat.lt_or_eq_of_le (Nat.le_of_lt_succ hi) with hlt | rfl
        · exact hrun i hfirst hlt
        · rw [hfound, heq]
      · simp only [if_neg heq] at h
        cases h
        exact ⟨Nat.le_refl _, fun i hfirst hi => by omega⟩

/-- Up to the end of a run all keys are equal. -/
theorem keyAt_of_runEnd {n position last : Nat}
    (h : runEnd keyAt key n position = .ok (some last)) :
    position ≤ last ∧ ∀ i, position < i → i ≤ last → keyAt i = .ok (some key) := by
  induction position using runEnd_induction n with
  | turn position ih =>
    rw [runEnd] at h
    by_cases hlt : position + 1 < n
    · rw [if_pos hlt] at h
      obtain ⟨found, hfound, h⟩ := bind_eq_ok.mp h
      cases found with
      | none => cases h
      | some next =>
        by_cases heq : next = key
        · simp only [if_pos heq] at h
          obtain ⟨hle, hrun⟩ := ih hlt h
          refine ⟨by omega, fun i hi hlast => ?_⟩
          rcases Nat.lt_or_eq_of_le hi with hgt | rfl
          · exact hrun i hgt hlast
          · rw [hfound, heq]
        · simp only [if_neg heq] at h
          cases h
          exact ⟨Nat.le_refl _, fun i hi hlast => by omega⟩
    · rw [if_neg hlt] at h
      cases h
      exact ⟨Nat.le_refl _, fun i hi hlast => by omega⟩

/-- The positions are neighbours, and each has the key. -/
def Neighbours (keyAt : Nat → Except ε (Option String)) (key : String) (found : List Nat) : Prop :=
  ∃ first count, found = List.range' first count ∧ ∀ i ∈ found, keyAt i = .ok (some key)

theorem Neighbours.nil : Neighbours keyAt key [] :=
  ⟨0, 0, rfl, by simp⟩

theorem neighbours_of_run {n position : Nat} {found : List Nat}
    (hposition : keyAt position = .ok (some key))
    (h : run keyAt key n position = .ok (some found)) : Neighbours keyAt key found := by
  obtain ⟨first, hfirst, h⟩ := bind_eq_ok.mp h
  cases first with
  | none => cases h
  | some first =>
    obtain ⟨last, hlast, h⟩ := bind_eq_ok.mp h
    cases last with
    | none => cases h
    | some last =>
      cases h
      obtain ⟨hle, hbefore⟩ := keyAt_of_runStart hfirst
      obtain ⟨hle', hbehind⟩ := keyAt_of_runEnd hlast
      refine ⟨first, _, rfl, fun i hi => ?_⟩
      obtain ⟨hge, hlt⟩ := List.mem_range'_1.mp hi
      rcases Nat.lt_trichotomy i position with hi | rfl | hi
      · exact hbefore i hge hi
      · exact hposition
      · exact hbehind i hi (by omega)

theorem neighbours_of_bisect {n low high : Nat} {found : List Nat}
    (h : bisect keyAt key n low high = .ok (some found)) : Neighbours keyAt key found := by
  induction low, high using bisect_induction with
  | turn low high behind before =>
    rw [bisect] at h
    by_cases hle : low ≤ high
    · rw [if_pos hle] at h
      obtain ⟨there, hthere, h⟩ := bind_eq_ok.mp h
      cases there with
      | none => cases h
      | some there =>
        cases hcompare : Text.compare there key with
        | eq =>
          obtain rfl := Text.compare_eq_iff.mp hcompare
          simp only [hcompare] at h
          exact neighbours_of_run hthere h
        | lt =>
          simp only [hcompare] at h
          exact behind hle h
        | gt =>
          simp only [hcompare] at h
          by_cases hzero : low + (high - low) / 2 = 0
          · rw [if_pos hzero] at h
            cases h
            exact .nil
          · rw [if_neg hzero] at h
            exact before hle hzero h
    · rw [if_neg hle] at h
      cases h
      exact .nil

/-- A search in keys of any order gives neighbours that have the key. -/
theorem neighbours_of_positions {n : Nat} {found : List Nat}
    (h : positions keyAt key n = .ok (some found)) : Neighbours keyAt key found := by
  rw [positions] at h
  by_cases hempty : n = 0
  · rw [if_pos hempty] at h
    cases h
    exact .nil
  · rw [if_neg hempty] at h
    obtain ⟨first, hfirst, h⟩ := bind_eq_ok.mp h
    cases first with
    | none => cases h
    | some first =>
      cases hcompare : Text.compare key first with
      | lt =>
        simp only [hcompare] at h
        cases h
        exact .nil
      | eq =>
        obtain rfl := Text.compare_eq_iff.mp hcompare
        simp only [hcompare] at h
        exact neighbours_of_run hfirst h
      | gt =>
        simp only [hcompare] at h
        obtain ⟨last, hlast, h⟩ := bind_eq_ok.mp h
        cases last with
        | none => cases h
        | some last =>
          cases hcompare' : Text.compare key last with
          | gt =>
            simp only [hcompare'] at h
            cases h
            exact .nil
          | eq =>
            obtain rfl := Text.compare_eq_iff.mp hcompare'
            simp only [hcompare'] at h
            exact neighbours_of_run hlast h
          | lt =>
            simp only [hcompare'] at h
            exact neighbours_of_bisect h

end KeySearch

namespace KeyIndex

variable {fs : FileSystem} {x : KeyIndex} {key : String}

theorem forall₂_offsetsAt {ordinals offsets : List Nat}
    (h : x.offsetsAt fs ordinals = .ok (some offsets)) :
    List.Forall₂ (fun i o => x.offsetAt fs i = .ok (some o)) ordinals offsets := by
  induction ordinals generalizing offsets with
  | nil =>
    cases h
    exact .nil
  | cons i ordinals ih =>
    obtain ⟨offset, hoffset, h⟩ := bind_eq_ok.mp h
    cases offset with
    | none => cases h
    | some offset =>
      obtain ⟨rest, hrest, h⟩ := bind_eq_ok.mp h
      cases rest with
      | none => cases h
      | some rest =>
        cases h
        exact .cons hoffset (ih hrest)

/-- The offset of an ordinal whose key is known leads to a record with the key. -/
theorem keyAt_of_loadKey {i o : Nat} (h : x.loadKey fs i = .ok (some key))
    (ho : x.offsetAt fs i = .ok (some o)) : x.log.keyAt fs o = .ok (some key) := by
  rwa [loadKey, ho] at h

/-- The offsets that a search gives are those of neighbours, and lead to records with the key. -/
theorem exists_of_loadPositions {offsets : List Nat} (h : x.loadPositions fs key = .ok offsets) :
    ∃ first count, List.Forall₂
      (fun i o => x.offsetAt fs i = .ok (some o) ∧ x.log.keyAt fs o = .ok (some key))
      (List.range' first count) offsets := by
  obtain ⟨found, hfound, h⟩ := bind_eq_ok.mp h
  cases found with
  | none =>
    cases h
    exact ⟨0, 0, .nil⟩
  | some ordinals =>
    obtain ⟨offsets', hoffsets, h⟩ := bind_eq_ok.mp h
    cases h
    cases offsets' with
    | none => exact ⟨0, 0, .nil⟩
    | some offsets =>
      obtain ⟨first, count, rfl, hkeys⟩ := KeySearch.neighbours_of_positions hfound
      refine ⟨first, count, ?_⟩
      refine ((List.forall₂_and_left _ _).mpr ⟨hkeys, forall₂_offsetsAt hoffsets⟩).imp ?_
      rintro i o ⟨hkey, ho⟩
      exact ⟨ho, keyAt_of_loadKey hkey ho⟩

/-! ## An index in the wrong order -/

/-- A log with the keys `a` and `b`, at the offsets 10 and 38. -/
def logInOrder : Bytes :=
  FileFormat.tupleLog.magic ++ Record.stored ⟨"a", Box.fullSpace, [7], 1, 3⟩ ++
    Record.stored ⟨"b", Box.fullSpace, [], 2, 4⟩

/-- The greater key comes first in an index of the two offsets in the wrong order. -/
theorem points_unordered (hindex : x.file.Shows fs (offsetBytes [38, 10]))
    (hlog : x.log.file.Shows fs logInOrder) : Points fs x [38, 10] ["b", "a"] := by
  refine ⟨hindex, by decide, by decide, rfl, logInOrder, hlog, ?_⟩
  intro i o ho
  rcases i with _ | _ | i
  · cases ho
    have h := Record.decode_stored (t := ⟨"b", Box.fullSpace, [], 2, 4⟩)
      ⟨by decide, by decide, by decide⟩
      (FileFormat.tupleLog.magic ++ Record.stored ⟨"a", Box.fullSpace, [7], 1, 3⟩) []
    rw [List.append_nil, List.length_append, Record.length_stored] at h
    exact ⟨_, _, h, rfl⟩
  · cases ho
    exact ⟨_, _, Record.decode_stored ⟨by decide, by decide, by decide⟩
      FileFormat.tupleLog.magic _, rfl⟩
  · cases ho

end KeyIndex

end SpatialSegment
