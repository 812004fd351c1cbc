import SpatialSegment.KeyIndex
import SpatialSegment.Proofs.KeyIndex.Search

/-!
# The cache does not show

A cache is faithful to the loads when every key in it is the one that loading its ordinal gives. A
fetch through a faithful cache answers what the load does, and the cache stays faithful: so do the
keys of an index and the search for one.
-/

namespace SpatialSegment

namespace RecentKeys

/-- Every key in the cache is the one that is loaded for its ordinal. -/
def Faithful (load : Nat → Result (Option String)) (c : RecentKeys) : Prop :=
  ∀ ordinal key, (ordinal, key) ∈ c.recent → load ordinal = .ok (some key)

variable {load : Nat → Result (Option String)} {c : RecentKeys} {ordinal : Nat} {key : String}

theorem mem_of_lookup {recent : List (Nat × String)} (h : recent.lookup ordinal = some key) :
    (ordinal, key) ∈ recent := by
  induction recent with
  | nil => cases h
  | cons e recent ih =>
    obtain ⟨ordinal', key'⟩ := e
    rw [List.lookup_cons] at h
    by_cases heq : ordinal = ordinal'
    · subst heq
      simp only [beq_self_eq_true, Option.some.injEq] at h
      subst h
      exact List.mem_cons_self
    · rw [beq_false_of_ne heq] at h
      exact List.mem_cons_of_mem _ (ih h)

theorem Faithful.of_use (faithful : Faithful load c) (hload : load ordinal = .ok (some key))
    {recent : List (Nat × String)} (hrecent : ∀ e ∈ recent, e ∈ use ordinal key c.recent)
    {hits misses loads : Nat} :
    Faithful load { c with recent, hits, misses, loads } := by
  intro ordinal' key' hmem
  rcases List.mem_cons.mp (hrecent _ hmem) with heq | hold
  · cases heq
    exact hload
  · exact faithful ordinal' key' (List.mem_filter.mp hold).1

/-- A fetch through a faithful cache answers what the load does. -/
theorem Faithful.fetch (faithful : Faithful load c) (ordinal : Nat) :
    (c.fetch ordinal fun _ => load ordinal).1 = load ordinal ∧
      Faithful load (c.fetch ordinal fun _ => load ordinal).2 := by
  rw [RecentKeys.fetch]
  cases hlookup : c.recent.lookup ordinal with
  | some key =>
    have hload := faithful ordinal key (mem_of_lookup hlookup)
    exact ⟨hload.symm, faithful.of_use hload fun e he => he⟩
  | none =>
    cases hload : load ordinal with
    | error cause => exact ⟨rfl, faithful⟩
    | ok answer =>
      cases answer with
      | none => exact ⟨rfl, faithful⟩
      | some key => exact ⟨rfl, faithful.of_use hload fun e he => List.mem_of_mem_take he⟩

theorem faithful_empty {capacity : Nat} (h : ofCapacity? capacity = some c) : Faithful load c := by
  rw [ofCapacity?] at h
  by_cases hcapacity : 0 < capacity ∧ capacity ≤ maxCapacity
  · rw [dif_pos hcapacity] at h
    cases h
    intro ordinal key hmem
    cases hmem
  · rw [dif_neg hcapacity] at h
    cases h

end RecentKeys

namespace KeyIndex

/-- There is no cache, or a faithful one. -/
def FaithfulCache (fs : FileSystem) (x : KeyIndex) (cache : Option RecentKeys) : Prop :=
  ∀ c, cache = some c → c.Faithful (x.loadKey fs)

theorem faithfulCache_none (fs : FileSystem) (x : KeyIndex) : x.FaithfulCache fs none :=
  fun c hc => by cases hc

/-- The search without a cache. -/
def loadPositions (fs : FileSystem) (x : KeyIndex) (key : String) : Result (List Nat) := do
  match ← KeySearch.positions (x.loadKey fs) key x.length with
  | none => return []
  | some ordinals => return ((← x.offsetsAt fs ordinals).getD [])

variable {fs : FileSystem} {x : KeyIndex}

theorem answers_keyAt (ordinal : Nat) :
    Answers (FaithfulCache fs x) (x.keyAt fs ordinal) (x.loadKey fs ordinal) := by
  intro cache hcache
  cases cache with
  | none => exact ⟨rfl, hcache⟩
  | some c =>
    obtain ⟨hanswer, hfaithful⟩ := (hcache c rfl).fetch ordinal
    refine ⟨hanswer, ?_⟩
    intro c' hc'
    cases hc'
    exact hfaithful

/-- A search answers what the search of the keys does, if every key is answered as it is loaded. -/
theorem answers_positions_of {I : Option RecentKeys → Prop}
    (keys : ∀ ordinal, Answers I (x.keyAt fs ordinal) (x.loadKey fs ordinal)) (key : String) :
    Answers I (x.positions fs key) (x.loadPositions fs key) := by
  refine (KeySearch.answers_positions keys x.length).bind fun found _ => ?_
  cases found with
  | none => exact Answers.pure _
  | some ordinals =>
    have hlift : Answers I (KeyIndex.positions.liftExcept (x.offsetsAt fs ordinals))
        (x.offsetsAt fs ordinals) :=
      fun cache hcache => ⟨rfl, hcache⟩
    exact hlift.bind fun offsets _ => Answers.pure _

/-- The offsets of a key do not depend on what the cache holds. -/
theorem answers_positions (key : String) :
    Answers (FaithfulCache fs x) (x.positions fs key) (x.loadPositions fs key) :=
  answers_positions_of answers_keyAt key

/-- Without a cache there is none afterwards. -/
theorem answers_keyAt_none (ordinal : Nat) :
    Answers (· = none) (x.keyAt fs ordinal) (x.loadKey fs ordinal) := by
  rintro cache rfl
  exact ⟨rfl, rfl⟩

end KeyIndex

end SpatialSegment
