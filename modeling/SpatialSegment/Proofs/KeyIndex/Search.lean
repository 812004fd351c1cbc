import Mathlib.Data.List.Sort
import SpatialSegment.KeyIndex.Search
import SpatialSegment.Proofs.Results
import SpatialSegment.Proofs.Text.Order
import SpatialSegment.Proofs.Threading

/-!
# The search finds the run of a key

Among keys in order the positions of one key are neighbours. Halving keeps all of them between its
two ends, and around the position that is found the run of equal keys is collected: the answer is
every position of the key, in order, whichever of them is met first.

A search whose keys come from steps that thread a state answers what the search of the keys does.
-/

namespace SpatialSegment

namespace KeySearch

section

variable {ε : Type} {keyAt : Nat → Except ε (Option String)} {key : String} {keys : List String}

/-- The keys do not decrease. -/
def Ordered (keys : List String) : Prop := keys.Pairwise Text.NotAfter

/-- The positions of a key. -/
def positionsOf (keys : List String) (key : String) : List Nat :=
  (List.range keys.length).filter fun i => keys[i]? = some key

theorem mem_positionsOf {i : Nat} : i ∈ positionsOf keys key ↔ keys[i]? = some key := by
  unfold positionsOf
  rw [List.mem_filter, List.mem_range]
  constructor
  · rintro ⟨-, h⟩
    exact of_decide_eq_true h
  · intro h
    exact ⟨(List.getElem?_eq_some_iff.mp h).1, decide_eq_true h⟩

theorem Ordered.notAfter (ordered : Ordered keys) {i j : Nat} {s t : String} (hij : i ≤ j)
    (hi : keys[i]? = some s) (hj : keys[j]? = some t) : Text.NotAfter s t := by
  obtain ⟨hilt, rfl⟩ := List.getElem?_eq_some_iff.mp hi
  obtain ⟨hjlt, rfl⟩ := List.getElem?_eq_some_iff.mp hj
  rcases Nat.lt_or_eq_of_le hij with hlt | rfl
  · exact List.pairwise_iff_getElem.mp ordered i j hilt hjlt hlt
  · exact Text.NotAfter.refl _

/-- Behind a key that is too small there are only greater positions. -/
theorem Ordered.lt_of_lt (ordered : Ordered keys) {i j : Nat} {s : String}
    (hi : keys[i]? = some s) (hj : keys[j]? = some key) (h : Text.compare s key = .lt) :
    i < j := by
  by_contra hle
  exact Text.not_notAfter_of_lt h (ordered.notAfter (by omega) hj hi)

/-- Before a key that is too great there are only smaller positions. -/
theorem Ordered.lt_of_gt (ordered : Ordered keys) {i j : Nat} {s : String}
    (hi : keys[i]? = some s) (hj : keys[j]? = some key) (h : Text.compare s key = .gt) :
    j < i := by
  by_contra hle
  exact Text.not_notAfter_of_lt (Text.compare_gt_iff.mp h) (ordered.notAfter (by omega) hi hj)

/-- Between two positions of a key there is no other key. -/
theorem Ordered.eq_between (ordered : Ordered keys) {i j k : Nat} (hi : keys[i]? = some key)
    (hk : keys[k]? = some key) (hij : i ≤ j) (hjk : j ≤ k) : keys[j]? = some key := by
  have hlt : j < keys.length := by
    have := (List.getElem?_eq_some_iff.mp hk).1
    omega
  obtain ⟨s, hs⟩ : ∃ s, keys[j]? = some s := ⟨_, List.getElem?_eq_getElem hlt⟩
  have hge := ordered.notAfter hij hi hs
  have hle := ordered.notAfter hjk hs hk
  by_cases heq : s = key
  · exact heq ▸ hs
  · exact absurd hge (Text.not_notAfter_of_lt (hle.lt_of_ne heq))

/-- The positions of a key are those from a first to a last one. -/
structure Run (keys : List String) (key : String) (first last : Nat) : Prop where
  le : first ≤ last
  iff : ∀ i, keys[i]? = some key ↔ first ≤ i ∧ i ≤ last

theorem Run.positionsOf_eq {first last : Nat} (r : Run keys key first last) :
    positionsOf keys key = List.range' first (last + 1 - first) := by
  have hsorted : (positionsOf keys key).Pairwise (· < ·) := List.pairwise_lt_range.filter _
  refine hsorted.eq_of_mem_iff List.pairwise_lt_range' fun i => ?_
  have hle := r.le
  rw [mem_positionsOf, r.iff, List.mem_range'_1]
  omega

/-- Where the keys come from. -/
def Tells (keyAt : Nat → Except ε (Option String)) (keys : List String) : Prop :=
  ∀ i s, keys[i]? = some s → keyAt i = .ok (some s)

theorem exists_runStart (tells : Tells keyAt keys) {position : Nat}
    (hkey : keys[position]? = some key) :
    ∃ first, runStart keyAt key position = .ok (some first) ∧ first ≤ position ∧
      (∀ i, first ≤ i → i ≤ position → keys[i]? = some key) ∧
      ∀ i, i + 1 = first → keys[i]? ≠ some key := by
  induction position with
  | zero =>
    refine ⟨0, rfl, Nat.le_refl 0, ?_, ?_⟩
    · intro i _ hi
      obtain rfl : i = 0 := by omega
      exact hkey
    · intro i hi
      omega
  | succ position ih =>
    have hlt : position < keys.length := by
      have := (List.getElem?_eq_some_iff.mp hkey).1
      omega
    obtain ⟨previous, hprevious⟩ : ∃ s, keys[position]? = some s :=
      ⟨_, List.getElem?_eq_getElem hlt⟩
    rw [runStart, tells position previous hprevious, ok_bind]
    by_cases heq : previous = key
    · obtain ⟨first, hrun, hle, hequal, hbefore⟩ := ih (heq ▸ hprevious)
      refine ⟨first, ?_, by omega, ?_, hbefore⟩
      · simpa only [if_pos heq] using hrun
      · intro i hfirst hi
        rcases Nat.lt_or_eq_of_le hi with hlast | rfl
        · exact hequal i hfirst (by omega)
        · exact hkey
    · refine ⟨position + 1, ?_, Nat.le_refl _, ?_, ?_⟩
      · simp only [if_neg heq]
        rfl
      · intro i hfirst hi
        obtain rfl : i = position + 1 := by omega
        exact hkey
      · intro i hi hi'
        obtain rfl : i = position := by omega
        rw [hprevious] at hi'
        exact heq (Option.some.inj hi')

theorem exists_runEnd (tells : Tells keyAt keys) {position : Nat}
    (hkey : keys[position]? = some key) :
    ∃ last, runEnd keyAt key keys.length position = .ok (some last) ∧ position ≤ last ∧
      (∀ i, position ≤ i → i ≤ last → keys[i]? = some key) ∧ keys[last + 1]? ≠ some key := by
  induction position using runEnd_induction keys.length with
  | turn position ih =>
    have alone : ∀ i, position ≤ i → i ≤ position → keys[i]? = some key := by
      intro i hle hge
      obtain rfl : i = position := by omega
      exact hkey
    rw [runEnd]
    by_cases hlt : position + 1 < keys.length
    · obtain ⟨next, hnext⟩ : ∃ s, keys[position + 1]? = some s :=
        ⟨_, List.getElem?_eq_getElem hlt⟩
      rw [if_pos hlt, tells (position + 1) next hnext, SpatialSegment.ok_bind]
      by_cases heq : next = key
      · obtain ⟨last, hrun, hle, hequal, hbehind⟩ := ih hlt (heq ▸ hnext)
        refine ⟨last, ?_, by omega, ?_, hbehind⟩
        · simpa only [if_pos heq] using hrun
        · intro i hfirst hi
          rcases Nat.lt_or_eq_of_le hfirst with hgreater | rfl
          · exact hequal i hgreater hi
          · exact hkey
      · refine ⟨position, ?_, Nat.le_refl _, alone, ?_⟩
        · simp only [if_neg heq]
          rfl
        · intro hnext'
          rw [hnext] at hnext'
          exact heq (Option.some.inj hnext')
    · refine ⟨position, ?_, Nat.le_refl _, alone, ?_⟩
      · rw [if_neg hlt]
        rfl
      · intro hnext
        exact hlt (List.getElem?_eq_some_iff.mp hnext).1

/-- Around one position of a key all its positions are collected. -/
theorem run_eq (tells : Tells keyAt keys) (ordered : Ordered keys) {position : Nat}
    (hkey : keys[position]? = some key) :
    run keyAt key keys.length position = .ok (some (positionsOf keys key)) := by
  obtain ⟨first, hstart, hfirst, hequal, hbefore⟩ := exists_runStart tells hkey
  obtain ⟨last, hend, hlast, hequal', hbehind⟩ := exists_runEnd tells hkey
  have r : Run keys key first last := by
    refine ⟨by omega, fun i => ⟨fun hi => ⟨?_, ?_⟩, ?_⟩⟩
    · by_contra hlt
      have hprevious := ordered.eq_between (j := first - 1) hi hkey (by omega) (by omega)
      exact hbefore (first - 1) (by omega) hprevious
    · by_contra hgt
      exact hbehind (ordered.eq_between hkey hi (by omega) (by omega))
    · rintro ⟨hge, hle⟩
      rcases Nat.le_total i position with hi | hi
      · exact hequal i hge hi
      · exact hequal' i hi hle
  rw [run, hstart, SpatialSegment.ok_bind]
  simp only [hend, SpatialSegment.ok_bind]
  rw [r.positionsOf_eq]
  rfl

theorem positionsOf_eq_nil (h : ∀ i : Nat, keys[i]? ≠ some key) : positionsOf keys key = [] := by
  rw [List.eq_nil_iff_forall_not_mem]
  intro i hi
  exact h i (mem_positionsOf.mp hi)

/-- Halving finds the key if all its positions are between the two ends. -/
theorem bisect_eq (tells : Tells keyAt keys) (ordered : Ordered keys) {low high : Nat}
    (hhigh : high < keys.length)
    (inside : ∀ i, keys[i]? = some key → low ≤ i ∧ i ≤ high) :
    bisect keyAt key keys.length low high = .ok (some (positionsOf keys key)) := by
  induction low, high using bisect_induction with
  | turn low high behind before =>
    rw [bisect]
    by_cases hle : low ≤ high
    · obtain ⟨found, hfound⟩ : ∃ s, keys[low + (high - low) / 2]? = some s :=
        ⟨_, List.getElem?_eq_getElem (by omega)⟩
      rw [if_pos hle]
      simp only [tells _ found hfound, SpatialSegment.ok_bind]
      cases hcompare : Text.compare found key with
      | eq => exact run_eq tells ordered (Text.compare_eq_iff.mp hcompare ▸ hfound)
      | lt =>
        refine behind hle hhigh ?_
        intro i hi
        have hgreater := ordered.lt_of_lt hfound hi hcompare
        exact ⟨hgreater, (inside i hi).2⟩
      | gt =>
        by_cases hzero : low + (high - low) / 2 = 0
        · rw [positionsOf_eq_nil]
          · simp only [if_pos hzero]
            rfl
          · intro i hi
            have hsmaller := ordered.lt_of_gt hfound hi hcompare
            omega
        · simp only [if_neg hzero]
          refine before hle hzero (by omega) ?_
          intro i hi
          have hsmaller := ordered.lt_of_gt hfound hi hcompare
          exact ⟨(inside i hi).1, by omega⟩
    · rw [if_neg hle, positionsOf_eq_nil]
      · rfl
      · intro i hi
        have := inside i hi
        omega

/-- The search answers with all positions of the key, in order. -/
theorem positions_eq (tells : Tells keyAt keys) (ordered : Ordered keys) :
    positions keyAt key keys.length = .ok (some (positionsOf keys key)) := by
  rw [positions]
  by_cases hempty : keys.length = 0
  · rw [if_pos hempty, List.eq_nil_of_length_eq_zero hempty]
    rfl
  · obtain ⟨first, hfirst⟩ : ∃ s, keys[0]? = some s := ⟨_, List.getElem?_eq_getElem (by omega)⟩
    obtain ⟨last, hlast⟩ : ∃ s, keys[keys.length - 1]? = some s :=
      ⟨_, List.getElem?_eq_getElem (by omega)⟩
    rw [if_neg hempty, tells 0 first hfirst, SpatialSegment.ok_bind]
    cases hcompare : Text.compare key first with
    | lt =>
      rw [positionsOf_eq_nil]
      · simp only [hcompare]
        rfl
      · intro i hi
        exact absurd (ordered.notAfter (Nat.zero_le i) hfirst hi)
          (Text.not_notAfter_of_lt hcompare)
    | eq =>
      simp only [hcompare]
      exact run_eq tells ordered (Text.compare_eq_iff.mp hcompare ▸ hfirst)
    | gt =>
      simp only [hcompare]
      rw [tells (keys.length - 1) last hlast, SpatialSegment.ok_bind]
      cases hcompare' : Text.compare key last with
      | lt =>
        simp only [hcompare']
        refine bisect_eq tells ordered (by omega) fun i hi => ⟨Nat.zero_le i, ?_⟩
        have := (List.getElem?_eq_some_iff.mp hi).1
        omega
      | eq =>
        simp only [hcompare']
        exact run_eq tells ordered (Text.compare_eq_iff.mp hcompare' ▸ hlast)
      | gt =>
        rw [positionsOf_eq_nil]
        · simp only [hcompare']
          rfl
        · intro i hi
          have hlt := (List.getElem?_eq_some_iff.mp hi).1
          exact absurd (ordered.notAfter (by omega) hi hlast)
            (Text.not_notAfter_of_lt (Text.compare_gt_iff.mp hcompare'))

end

/-! ## Keys from steps that thread a state -/

section

variable {ε σ : Type} {I : σ → Prop} {keyAt : Nat → ExceptT ε (StateM σ) (Option String)}
  {told : Nat → Except ε (Option String)} {key : String}

theorem answers_runStart (answers : ∀ i, Answers I (keyAt i) (told i)) (position : Nat) :
    Answers I (runStart keyAt key position) (runStart told key position) := by
  induction position with
  | zero => exact Answers.pure _
  | succ position ih =>
    rw [runStart, runStart]
    refine (answers position).bind fun found _ => ?_
    cases found with
    | none => exact Answers.pure _
    | some previous =>
      by_cases heq : previous = key
      · simpa only [if_pos heq] using ih
      · simp only [if_neg heq]
        exact Answers.pure _

theorem answers_runEnd (answers : ∀ i, Answers I (keyAt i) (told i)) (n position : Nat) :
    Answers I (runEnd keyAt key n position) (runEnd told key n position) := by
  induction position using runEnd_induction n with
  | turn position ih =>
    rw [runEnd.eq_def keyAt, runEnd.eq_def told]
    by_cases hlt : position + 1 < n
    · rw [if_pos hlt, if_pos hlt]
      refine (answers (position + 1)).bind fun found _ => ?_
      cases found with
      | none => exact Answers.pure _
      | some next =>
        by_cases heq : next = key
        · simpa only [if_pos heq] using ih hlt
        · simp only [if_neg heq]
          exact Answers.pure _
    · rw [if_neg hlt, if_neg hlt]
      exact Answers.pure _

theorem answers_run (answers : ∀ i, Answers I (keyAt i) (told i)) (n position : Nat) :
    Answers I (run keyAt key n position) (run told key n position) := by
  rw [run, run]
  refine (answers_runStart answers position).bind fun first _ => ?_
  cases first with
  | none => exact Answers.pure _
  | some first =>
    refine (answers_runEnd answers n position).bind fun last _ => ?_
    cases last with
    | none => exact Answers.pure _
    | some last => exact Answers.pure _

theorem answers_bisect (answers : ∀ i, Answers I (keyAt i) (told i)) (n low high : Nat) :
    Answers I (bisect keyAt key n low high) (bisect told key n low high) := by
  induction low, high using bisect_induction with
  | turn low high behind before =>
    rw [bisect.eq_def keyAt, bisect.eq_def told]
    by_cases hle : low ≤ high
    · rw [if_pos hle, if_pos hle]
      refine (answers (low + (high - low) / 2)).bind fun found _ => ?_
      cases found with
      | none => exact Answers.pure _
      | some found =>
        cases hcompare : Text.compare found key with
        | eq =>
          simp only [hcompare]
          exact answers_run answers n _
        | lt =>
          simp only [hcompare]
          exact behind hle
        | gt =>
          simp only [hcompare]
          by_cases hzero : low + (high - low) / 2 = 0
          · rw [if_pos hzero, if_pos hzero]
            exact Answers.pure _
          · rw [if_neg hzero, if_neg hzero]
            exact before hle hzero
    · rw [if_neg hle, if_neg hle]
      exact Answers.pure _

/-- A search answers what the search of the keys does. -/
theorem answers_positions (answers : ∀ i, Answers I (keyAt i) (told i)) (n : Nat) :
    Answers I (positions keyAt key n) (positions told key n) := by
  rw [positions, positions]
  by_cases hempty : n = 0
  · rw [if_pos hempty, if_pos hempty]
    exact Answers.pure _
  · rw [if_neg hempty, if_neg hempty]
    refine (answers 0).bind fun first _ => ?_
    cases first with
    | none => exact Answers.pure _
    | some first =>
      cases hcompare : Text.compare key first with
      | lt =>
        simp only [hcompare]
        exact Answers.pure _
      | eq =>
        simp only [hcompare]
        exact answers_run answers n 0
      | gt =>
        simp only [hcompare]
        refine (answers (n - 1)).bind fun last _ => ?_
        cases last with
        | none => exact Answers.pure _
        | some last =>
          cases hcompare' : Text.compare key last with
          | gt =>
            simp only [hcompare']
            exact Answers.pure _
          | eq =>
            simp only [hcompare']
            exact answers_run answers n _
          | lt =>
            simp only [hcompare']
            exact answers_bisect answers n 0 _

end

end KeySearch

end SpatialSegment
