import SpatialSegment.Proofs.KeyIndex.Cached
import SpatialSegment.Segment

/-!
# Reads answer what is loaded

Whatever the files hold, reads leave a segment as it was opened, but for counters and the cache, and
the cache holds what loading gives. So a read answers what it would without a cache.
-/

namespace SpatialSegment

namespace Segment

theorem answers_ofResult {I : Segment → Prop} {α : Type} (result : Result α) :
    Answers I (ofResult result) (result.mapError .error) := by
  intro s hs
  exact ⟨rfl, hs⟩

/-- A lookup changes the cache alone. -/
theorem run_lookup {α : Type} (steps : Lookup α) (s : Segment) :
    (lookup steps).run.run s = ((steps.run.run s.index.cache).1.mapError .error,
      { s with index := { s.index with cache := (steps.run.run s.index.cache).2 } }) :=
  rfl

/-! ## Reads without a cache -/

variable {fs : FileSystem} {opened s : Segment}

/-- The tuples that a log gives at offsets, as far as it is open. -/
def loadAll (fs : FileSystem) (log : Log) : List Nat → Except Failure (List Tuple)
  | [] => return []
  | offset :: rest => do
    match ← (log.tupleAt fs offset).mapError .error with
    | none => loadAll fs log rest
    | some t => return t :: (← loadAll fs log rest)

/-- All tuples with the key, searched for without a cache. -/
def loadTuples (fs : FileSystem) (s : Segment) (key : String) : Except Failure (List Tuple) :=
  match s.gate.passes? key with
  | none => throw .aborted
  | some false => return []
  | some true => do
    let offsets ← (s.index.index.loadPositions fs key).mapError .error
    loadAll fs s.index.log offsets

/-- The tuple with a place in the order of the key index. -/
def loadAt (fs : FileSystem) (s : Segment) (ordinal : Nat) : Except Failure (Option Tuple) :=
  if s.index.index.length ≤ ordinal then return none
  else (s.index.index.tupleAt fs ordinal).mapError .error

/-- What reads leave as it was opened, and that the cache holds the keys that loading gives. -/
structure Unchanged (fs : FileSystem) (opened s : Segment) : Prop where
  index : s.index.index = opened.index.index
  tree : s.tree = opened.tree
  gate : s.gate = opened.gate
  summary : s.summary = opened.summary
  cache : opened.index.index.FaithfulCache fs s.index.cache

theorem Unchanged.log (unchanged : Unchanged fs opened s) : s.index.log = opened.index.log :=
  congrArg KeyIndex.log unchanged.index

theorem answers_count (change : ReadCounts → ReadCounts) :
    Answers (Unchanged fs opened) (count change) (.ok ()) := by
  intro s unchanged
  exact ⟨rfl, unchanged.index, unchanged.tree, unchanged.gate, unchanged.summary, unchanged.cache⟩

theorem answers_loadAll (offsets : List Nat) :
    Answers (Unchanged fs opened) (readTuples fs offsets)
      (loadAll fs opened.index.log offsets) := by
  induction offsets with
  | nil => exact Answers.pure _
  | cons offset offsets ih =>
    rw [readTuples, loadAll]
    refine Answers.get fun s unchanged => ?_
    rw [unchanged.log]
    refine (answers_ofResult _).bind fun found _ => ?_
    cases found with
    | none => exact ih
    | some t =>
      exact (answers_count _).ok_bind (ih.bind fun rest _ => Answers.pure _)

/-- What is found under a key is what is loaded, through whatever cache. -/
theorem answers_loadTuples (key : String) :
    Answers (Unchanged fs opened) (tuplesOf fs key) (opened.loadTuples fs key) := by
  refine (answers_count _).ok_bind (Answers.get fun s unchanged => ?_)
  rw [unchanged.gate, loadTuples]
  cases opened.gate.passes? key with
  | none => exact fun s unchanged => ⟨rfl, unchanged⟩
  | some passes =>
    cases passes with
    | false => exact (answers_count _).ok_bind (Answers.pure _)
    | true =>
      refine Answers.get fun s unchanged => ?_
      rw [unchanged.index]
      refine Answers.bind ?_ fun offsets _ => answers_loadAll offsets
      intro s unchanged
      obtain ⟨hanswer, hcache⟩ :=
        KeyIndex.answers_positions key s.index.cache unchanged.cache
      rw [run_lookup, hanswer]
      exact ⟨rfl, unchanged.index, unchanged.tree, unchanged.gate, unchanged.summary, hcache⟩

theorem answers_loadRegion (region : Box) :
    Answers (Unchanged fs opened) (tuplesIn fs region)
      (loadAll fs opened.index.log ((opened.tree.query region).map Entry.offset)) := by
  refine (answers_count _).ok_bind (Answers.get fun s unchanged => ?_)
  rw [unchanged.tree]
  exact answers_loadAll _

theorem answers_loadAt (ordinal : Nat) :
    Answers (Unchanged fs opened) (tupleAt fs ordinal) (opened.loadAt fs ordinal) := by
  refine Answers.get fun s unchanged => ?_
  rw [unchanged.index, loadAt]
  by_cases hbehind : opened.index.index.length ≤ ordinal
  · rw [if_pos hbehind, if_pos hbehind]
    exact Answers.pure _
  · rw [if_neg hbehind, if_neg hbehind,
      ← bind_pure ((opened.index.index.tupleAt fs ordinal).mapError _)]
    refine (answers_ofResult _).bind fun found _ => ?_
    cases found with
    | none => exact Answers.pure _
    | some t => exact (answers_count _).ok_bind (Answers.pure _)

end Segment

end SpatialSegment
