import SpatialSegment.KeyIndex
import SpatialSegment.Proofs.Checked.Steps
import SpatialSegment.Proofs.Threading

/-!
# The search for a key does not crash

A search counts positions up and down and halves what lies between two of them. All of them stay
below the number of keys, so no sum is beyond a word, and a difference is taken only of numbers that
have been compared. That the keys are in order is not needed, nor that a key comes the same twice.
-/

namespace SpatialSegment

open Machine

/-- Steps of a machine that may go through the cache. -/
abbrev CheckedLookup := ExceptT SegmentError (StateT (Option RecentKeys) Machine)

/-- Steps that leave the cache alone. -/
def Checked.lookup {α : Type} (steps : Checked SegmentError α) : CheckedLookup α :=
  ExceptT.mk (StateT.lift steps.run)

/-- From every cache the checked steps end as the plain ones do, with the same cache, and fail with
an error of the format if they do. -/
structure LookupEndsAs {α : Type} (steps : CheckedLookup α) (plain : Lookup α) : Prop where
  run_eq : ∀ cache, steps.run.run cache = pure (plain.run.run cache)
  formatOnly : ∀ cache, FormatOnly (plain.run.run cache).1

namespace LookupEndsAs

variable {α β : Type} {steps : CheckedLookup α} {plain : Lookup α}

theorem lift_bind (a : α) (next : α → CheckedLookup β) :
    ((liftM (pure a : Machine α) : CheckedLookup α) >>= next) = next a := rfl

theorem ok (a : α) : LookupEndsAs (pure a) (pure a) := by
  refine ⟨fun cache => rfl, ?_⟩
  intro cache cause h
  cases h

/-- The steps after a step go on from its value. -/
theorem bind {next : α → CheckedLookup β} {further : α → Lookup β}
    (ends : LookupEndsAs steps plain) (rest : ∀ a, LookupEndsAs (next a) (further a)) :
    LookupEndsAs (steps >>= next) (plain >>= further) := by
  have hrun : ∀ cache, (steps >>= next).run.run cache =
      steps.run.run cache >>= fun p => (ExceptT.bindCont next p.1).run p.2 := fun cache => rfl
  constructor
  · intro cache
    rw [hrun, ends.run_eq, pure_bind, run_bind]
    cases (plain.run.run cache).1 with
    | error cause => rfl
    | ok a => exact (rest a).run_eq _
  · intro cache
    rw [run_bind]
    cases h : (plain.run.run cache).1 with
    | error cause =>
      intro cause' hcause
      cases hcause
      exact ends.formatOnly cache cause h
    | ok a => exact (rest a).formatOnly _

theorem of_endsAs {steps : Checked SegmentError α} {result : Result α}
    (ends : EndsAs steps result) :
    LookupEndsAs steps.lookup (KeyIndex.positions.liftExcept result) := by
  obtain ⟨rfl, hformat⟩ := ends
  exact ⟨fun cache => rfl, fun cache => hformat⟩

end LookupEndsAs

/-- What a search asks for keys, and the key it is after. -/
structure CheckedSearch where
  keyAt : Nat → CheckedLookup (Option String)
  key : String

namespace CheckedSearch

/-- The first position of the run of equal keys that ends before or at the given one. -/
def runStart (s : CheckedSearch) (first : Nat) : CheckedLookup (Option Nat) :=
  if 0 < first then do
    let before ← sub first 1
    match ← s.keyAt before with
    | none => return none
    | some previous =>
      if previous = s.key then s |>.runStart before else return some first
  else return some first
partial_fixpoint

/-- The last position below `n` of the run of equal keys that goes on from the given one. -/
def runEnd (s : CheckedSearch) (n last : Nat) : CheckedLookup (Option Nat) := do
  let behind ← add last 1
  if behind < n then
    match ← s.keyAt behind with
    | none => return none
    | some next =>
      if next = s.key then s |>.runEnd n behind else return some last
  else return some last
partial_fixpoint

/-- The positions of the run around one of its members. -/
def run (s : CheckedSearch) (n position : Nat) : CheckedLookup (Option (List Nat)) := do
  match ← s.runStart position with
  | none => return none
  | some first =>
    match ← s.runEnd n position with
    | none => return none
    | some last => return some (List.range' first (last + 1 - first))

/-- Halves the positions from `low` to `high`. -/
def bisect (s : CheckedSearch) (n low high : Nat) : CheckedLookup (Option (List Nat)) :=
  if low ≤ high then do
    let width ← sub high low
    let middle ← add low (width / 2)
    match ← s.keyAt middle with
    | none => return none
    | some found =>
      match Text.compare found s.key with
      | .eq => s.run n middle
      | .lt => do
        let low ← add middle 1
        s |>.bisect n low high
      | .gt =>
        if middle = 0 then return some []
        else do
          let high ← sub middle 1
          s |>.bisect n low high
  else return some []
partial_fixpoint

/-- The positions of the key among the first `n`. -/
def positions (s : CheckedSearch) (n : Nat) : CheckedLookup (Option (List Nat)) :=
  if n = 0 then return some []
  else do
    let last ← sub n 1
    match ← s.keyAt 0 with
    | none => return none
    | some firstKey =>
      match Text.compare s.key firstKey with
      | .lt => return some []
      | .eq => s.run n 0
      | .gt =>
        match ← s.keyAt last with
        | none => return none
        | some lastKey =>
          match Text.compare s.key lastKey with
          | .gt => return some []
          | .eq => s.run n last
          | .lt => s.bisect n 0 last

section

variable {s : CheckedSearch} {plain : Nat → Lookup (Option String)} {n : Nat}

theorem endsAs_runStart (ends : ∀ i, LookupEndsAs (s.keyAt i) (plain i)) (position : Nat) :
    LookupEndsAs (s.runStart position) (KeySearch.runStart plain s.key position) := by
  induction position with
  | zero =>
    rw [runStart, if_neg (Nat.lt_irrefl 0), KeySearch.runStart]
    exact .ok _
  | succ position ih =>
    rw [runStart, if_pos position.succ_pos, sub_eq (Nat.le_add_left 1 position),
      LookupEndsAs.lift_bind, Nat.add_sub_cancel, KeySearch.runStart]
    refine (ends position).bind fun found => ?_
    cases found with
    | none => exact .ok _
    | some previous =>
      by_cases heq : previous = s.key
      · simpa only [if_pos heq] using ih
      · simp only [if_neg heq]
        exact .ok _

theorem endsAs_runEnd (ends : ∀ i, LookupEndsAs (s.keyAt i) (plain i)) (few : n < Word.limit 8)
    {position : Nat} (inside : position < n) :
    LookupEndsAs (s.runEnd n position) (KeySearch.runEnd plain s.key n position) := by
  induction position using KeySearch.runEnd_induction n with
  | turn position ih =>
    rw [runEnd, add_eq (by omega), LookupEndsAs.lift_bind, KeySearch.runEnd]
    by_cases hlt : position + 1 < n
    · rw [if_pos hlt, if_pos hlt]
      refine (ends (position + 1)).bind fun found => ?_
      cases found with
      | none => exact .ok _
      | some next =>
        by_cases heq : next = s.key
        · simpa only [if_pos heq] using ih hlt hlt
        · simp only [if_neg heq]
          exact .ok _
    · rw [if_neg hlt, if_neg hlt]
      exact .ok _

theorem endsAs_run (ends : ∀ i, LookupEndsAs (s.keyAt i) (plain i)) (few : n < Word.limit 8)
    {position : Nat} (inside : position < n) :
    LookupEndsAs (s.run n position) (KeySearch.run plain s.key n position) := by
  rw [run, KeySearch.run]
  refine (endsAs_runStart ends position).bind fun first => ?_
  cases first with
  | none => exact .ok _
  | some first =>
    refine (endsAs_runEnd ends few inside).bind fun last => ?_
    cases last with
    | none => exact .ok _
    | some last => exact .ok _

/-- The positions stay below the number of keys, and there are fewer of them in each turn. -/
theorem endsAs_bisect (ends : ∀ i, LookupEndsAs (s.keyAt i) (plain i)) (few : n < Word.limit 8)
    (low : Nat) {high : Nat} (inside : high < n) :
    LookupEndsAs (s.bisect n low high) (KeySearch.bisect plain s.key n low high) := by
  induction low, high using KeySearch.bisect_induction with
  | turn low high behind before =>
    rw [bisect, KeySearch.bisect]
    by_cases hle : low ≤ high
    · rw [if_pos hle, if_pos hle, sub_eq hle, LookupEndsAs.lift_bind, add_eq (by omega),
        LookupEndsAs.lift_bind]
      refine (ends (low + (high - low) / 2)).bind fun found => ?_
      cases found with
      | none => exact .ok _
      | some found =>
        cases hcompare : Text.compare found s.key with
        | eq =>
          simp only [hcompare]
          exact endsAs_run ends few (by omega)
        | lt =>
          simp only [hcompare]
          rw [add_eq (by omega), LookupEndsAs.lift_bind]
          exact behind hle inside
        | gt =>
          simp only [hcompare]
          by_cases hzero : low + (high - low) / 2 = 0
          · rw [if_pos hzero, if_pos hzero]
            exact .ok _
          · rw [if_neg hzero, if_neg hzero, sub_eq (by omega), LookupEndsAs.lift_bind]
            exact before hle hzero (by omega)
    · rw [if_neg hle, if_neg hle]
      exact .ok _

/-- A search ends as the plain one does, whatever the keys are. -/
theorem endsAs_positions (ends : ∀ i, LookupEndsAs (s.keyAt i) (plain i))
    (few : n < Word.limit 8) :
    LookupEndsAs (s.positions n) (KeySearch.positions plain s.key n) := by
  rw [positions, KeySearch.positions]
  by_cases hempty : n = 0
  · rw [if_pos hempty, if_pos hempty]
    exact .ok _
  · have hlast : n - 1 < n := by omega
    rw [if_neg hempty, if_neg hempty, sub_eq (by omega), LookupEndsAs.lift_bind]
    refine (ends 0).bind fun first => ?_
    cases first with
    | none => exact .ok _
    | some first =>
      cases hfirst : Text.compare s.key first with
      | lt =>
        simp only [hfirst]
        exact .ok _
      | eq =>
        simp only [hfirst]
        exact endsAs_run ends few (by omega)
      | gt =>
        simp only [hfirst]
        refine (ends (n - 1)).bind fun last => ?_
        cases last with
        | none => exact .ok _
        | some last =>
          cases hcompare : Text.compare s.key last with
          | gt =>
            simp only [hcompare]
            exact .ok _
          | eq =>
            simp only [hcompare]
            exact endsAs_run ends few hlast
          | lt =>
            simp only [hcompare]
            exact endsAs_bisect ends few 0 hlast

end

end CheckedSearch

end SpatialSegment
