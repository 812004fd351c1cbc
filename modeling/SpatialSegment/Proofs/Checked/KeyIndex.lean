import SpatialSegment.Proofs.Checked.Log
import SpatialSegment.Proofs.Checked.Search

/-!
# Reads of any bytes fail with a fault of the format

A log and a key index may hold anything behind their preambles: offsets that lead nowhere, lengths
beyond the file, keys that are no text or not in order. While both files run and do not change, each
read of them comes to its end without a crash, and fails with a fault of the format if it does. The
mode of the files does not matter, nor does it whether there is a cache and what it holds.
-/

namespace SpatialSegment

open Machine

namespace RecentKeys

/-- A fetch loads the key only where the cache does not have it. -/
def checkedFetch (c : RecentKeys) (ordinal : Nat) (load : Checked SegmentError (Option String)) :
    Machine (Result (Option String) × RecentKeys) :=
  match c.recent.lookup ordinal with
  | some _ => return c.fetch ordinal fun _ => .ok none
  | none => do
    let loaded ← load.run
    return c.fetch ordinal fun _ => loaded

variable {c : RecentKeys} {load : Result (Option String)}

theorem checkedFetch_of (ordinal : Nat) :
    c.checkedFetch ordinal (Checked.of load) = pure (c.fetch ordinal fun _ => load) := by
  rw [checkedFetch]
  cases hlookup : c.recent.lookup ordinal with
  | none => rfl
  | some key => simp only [fetch, hlookup]

theorem formatOnly_fetch (h : FormatOnly load) (ordinal : Nat) :
    FormatOnly (c.fetch ordinal fun _ => load).1 := by
  rw [fetch]
  cases c.recent.lookup ordinal with
  | some key =>
    intro cause hcause
    cases hcause
  | none =>
    cases load with
    | error fault => exact h
    | ok answer =>
      cases answer <;> intro cause hcause <;> cases hcause

end RecentKeys

namespace KeyIndex

/-- The offset of an ordinal. The position that an ordinal leads to is computed with care. -/
def checkedOffsetAt (fs : FileSystem) (x : KeyIndex) (ordinal : Nat) :
    Checked SegmentError (Option Nat) :=
  match (product? ordinal recordLen).bind (sum? · FileFormat.bodyStart) with
  | none => throw (.formatIn x.file.path (.ordinal ordinal))
  | some position =>
    x.file.checkedUse fun view => do
      let raw ← x.file.checkedRead fs view position recordLen
      let raw ← range raw 0 4
      let offset := Word.signed 4 (Word.ofBig raw)
      if offset < 0 then throw (.formatIn x.file.path (.indexOffset offset ordinal))
      else return offset.toNat

def checkedLoadKey (fs : FileSystem) (x : KeyIndex) (ordinal : Nat) :
    Checked SegmentError (Option String) := do
  match ← x.checkedOffsetAt fs ordinal with
  | some offset => x.log.checkedKeyAt fs offset
  | none => return none

/-- The key of an ordinal, through the cache if there is one. -/
def checkedKeyAt (fs : FileSystem) (x : KeyIndex) (ordinal : Nat) : CheckedLookup (Option String) :=
  ExceptT.mk fun cache =>
    match cache with
    | none => do
      let result ← (x.checkedLoadKey fs ordinal).run
      return (result, none)
    | some cache => do
      let (result, cache) ← cache.checkedFetch ordinal (x.checkedLoadKey fs ordinal)
      return (result, some cache)

def checkedTupleAt (fs : FileSystem) (x : KeyIndex) (ordinal : Nat) :
    Checked SegmentError (Option Tuple) := do
  match ← x.checkedOffsetAt fs ordinal with
  | some offset => x.log.checkedTupleAt fs offset
  | none => return none

/-- The offsets of the ordinals, unless one of them gives none. -/
def checkedOffsetsAt (fs : FileSystem) (x : KeyIndex) :
    List Nat → Checked SegmentError (Option (List Nat))
  | [] => return some []
  | ordinal :: rest => do
    match ← x.checkedOffsetAt fs ordinal with
    | none => return none
    | some offset =>
      match ← x.checkedOffsetsAt fs rest with
      | none => return none
      | some offsets => return some (offset :: offsets)

/-- The offsets of all records with the key, in the order of the index. -/
def checkedPositions (fs : FileSystem) (x : KeyIndex) (key : String) :
    CheckedLookup (List Nat) := do
  match ← (CheckedSearch.mk (x.checkedKeyAt fs) key).positions x.length with
  | none => return []
  | some ordinals => return ((← (x.checkedOffsetsAt fs ordinals).lookup).getD [])

/-- The next item. The ordinal is counted up before its tuple is read. -/
def checkedStep (fs : FileSystem) (x : KeyIndex) (c : Cursor) :
    Machine (Option (Result Tuple) × Cursor) :=
  if c.next < c.stop then do
    let next ← add c.next 1
    match ← (x.checkedTupleAt fs c.next).run with
    | .ok (some tuple) => return (some (.ok tuple), ⟨next, c.stop⟩)
    | .ok none => return (none, ⟨c.stop, c.stop⟩)
    | .error cause => return (some (.error cause), ⟨c.stop, c.stop⟩)
  else return (none, c)

/-! ## Ends of the reads -/

/-- How the reads of an index and its log end. A cursor is of two words. -/
structure ReadsEnd (fs : FileSystem) (x : KeyIndex) : Prop where
  tupleAtOffset : ∀ offset,
    EndsAs (x.log.checkedTupleAt fs offset) (x.log.tupleAt fs offset)
  keyAtOffset : ∀ offset, EndsAs (x.log.checkedKeyAt fs offset) (x.log.keyAt fs offset)
  scan : ∀ key, EndsAs (x.log.checkedScan fs key) (x.log.scan fs key)
  offsets : EndsAs (x.log.checkedOffsets fs) (x.log.offsets fs)
  offsetAt : ∀ ordinal, EndsAs (x.checkedOffsetAt fs ordinal) (x.offsetAt fs ordinal)
  keyAt : ∀ ordinal, LookupEndsAs (x.checkedKeyAt fs ordinal) (x.keyAt fs ordinal)
  tupleAt : ∀ ordinal, EndsAs (x.checkedTupleAt fs ordinal) (x.tupleAt fs ordinal)
  positions : ∀ key, LookupEndsAs (x.checkedPositions fs key) (x.positions fs key)
  step : ∀ c : Cursor, c.stop < Word.limit 8 →
    x.checkedStep fs c = pure (x.step fs c) ∧
      ∀ item, (x.step fs c).1 = some item → FormatOnly item

variable {fs : FileSystem} {x : KeyIndex} {logBytes indexBytes : Bytes}

/-- The position of an ordinal is found, or refused as too large. -/
theorem position_eq (ordinal : Nat) :
    (product? ordinal recordLen).bind (sum? · FileFormat.bodyStart) =
      if Word.limit 8 ≤ ordinal * recordLen + FileFormat.bodyStart then none
      else some (ordinal * recordLen + FileFormat.bodyStart) := by
  by_cases hlarge : Word.limit 8 ≤ ordinal * recordLen + FileFormat.bodyStart
  · rw [if_pos hlarge, product?]
    split
    · rw [Option.bind_some, sum?, if_neg (Nat.not_lt.mpr hlarge)]
    · rfl
  · rw [if_neg hlarge, product?, if_pos (by omega), Option.bind_some, sum?,
      if_pos (Nat.lt_of_not_le hlarge)]

theorem endsAs_offsetAt (index : x.file.Runs fs indexBytes) (ordinal : Nat) :
    EndsAs (x.checkedOffsetAt fs ordinal) (x.offsetAt fs ordinal) := by
  rw [checkedOffsetAt, offsetAt, position_eq]
  by_cases hlarge : Word.limit 8 ≤ ordinal * recordLen + FileFormat.bodyStart
  · rw [if_pos hlarge, if_pos hlarge]
    exact .refuse _ _
  · rw [if_neg hlarge, if_neg hlarge]
    refine index.endsAs_use fun v opens => ?_
    refine (GuardedFile.endsAs_read opens index.length_lt _ _).bind fun raw hraw => ?_
    have hlength : raw.length = 4 := (GuardedFile.length_of_read opens index.length_lt hraw).1
    rw [range_all hlength, Checked.lift_bind]
    dsimp only
    by_cases hneg : Word.signed 4 (Word.ofBig raw) < 0
    · rw [if_pos hneg, if_pos hneg]
      exact .refuse _ _
    · rw [if_neg hneg, if_neg hneg]
      exact .ok _

theorem endsAs_loadKey (log : x.log.file.Runs fs logBytes) (index : x.file.Runs fs indexBytes)
    (ordinal : Nat) : EndsAs (x.checkedLoadKey fs ordinal) (x.loadKey fs ordinal) := by
  refine (endsAs_offsetAt index ordinal).bind fun offset _ => ?_
  cases offset with
  | none => exact .ok _
  | some offset => exact Log.endsAs_keyAt log offset

theorem endsAs_tupleAt (log : x.log.file.Runs fs logBytes) (index : x.file.Runs fs indexBytes)
    (ordinal : Nat) : EndsAs (x.checkedTupleAt fs ordinal) (x.tupleAt fs ordinal) := by
  refine (endsAs_offsetAt index ordinal).bind fun offset _ => ?_
  cases offset with
  | none => exact .ok _
  | some offset => exact Log.endsAs_tupleAt log offset

theorem endsAs_offsetsAt (index : x.file.Runs fs indexBytes) (ordinals : List Nat) :
    EndsAs (x.checkedOffsetsAt fs ordinals) (x.offsetsAt fs ordinals) := by
  induction ordinals with
  | nil => exact .ok _
  | cons ordinal rest ih =>
    rw [checkedOffsetsAt, offsetsAt]
    refine (endsAs_offsetAt index ordinal).bind fun offset _ => ?_
    cases offset with
    | none => exact .ok _
    | some offset =>
      refine ih.bind fun offsets _ => ?_
      cases offsets with
      | none => exact .ok _
      | some offsets => exact .ok _

/-- Whatever the cache holds: it answers with a key, or the key is loaded. -/
theorem endsAs_keyAt (log : x.log.file.Runs fs logBytes) (index : x.file.Runs fs indexBytes)
    (ordinal : Nat) : LookupEndsAs (x.checkedKeyAt fs ordinal) (x.keyAt fs ordinal) := by
  obtain ⟨hload, hformat⟩ := endsAs_loadKey log index ordinal
  constructor
  · intro cache
    cases cache with
    | none =>
      rw [checkedKeyAt, hload]
      rfl
    | some c =>
      rw [checkedKeyAt, hload]
      change (do
        let p ← c.checkedFetch ordinal (Checked.of (x.loadKey fs ordinal))
        return (p.1, some p.2) : Machine _) = _
      rw [RecentKeys.checkedFetch_of]
      rfl
  · intro cache
    cases cache with
    | none => exact hformat
    | some c => exact RecentKeys.formatOnly_fetch hformat ordinal

theorem endsAs_positions (log : x.log.file.Runs fs logBytes) (index : x.file.Runs fs indexBytes)
    (key : String) : LookupEndsAs (x.checkedPositions fs key) (x.positions fs key) := by
  have few : x.length < Word.limit 8 := by
    have hlimit : Word.limit 8 = 2 * View.signedLimit := rfl
    have hlength := index.length_lt
    rw [length, index.shows.bodyLen_eq, recordLen]
    omega
  rw [checkedPositions, positions]
  refine (CheckedSearch.endsAs_positions (endsAs_keyAt log index) few).bind fun found => ?_
  cases found with
  | none => exact .ok _
  | some ordinals =>
    refine (LookupEndsAs.of_endsAs (endsAs_offsetsAt index ordinals)).bind fun offsets => ?_
    exact .ok _

theorem step_ends (log : x.log.file.Runs fs logBytes) (index : x.file.Runs fs indexBytes)
    {c : Cursor} (words : c.stop < Word.limit 8) :
    x.checkedStep fs c = pure (x.step fs c) ∧
      ∀ item, (x.step fs c).1 = some item → FormatOnly item := by
  obtain ⟨htuple, hformat⟩ := endsAs_tupleAt log index c.next
  rw [checkedStep, step]
  by_cases hlt : c.next < c.stop
  · rw [if_pos hlt, if_pos hlt, add_eq (by omega), pure_bind, htuple]
    cases hresult : x.tupleAt fs c.next with
    | error cause =>
      refine ⟨rfl, ?_⟩
      intro item h cause' hcause
      cases h
      cases hcause
      exact hformat cause hresult
    | ok answer =>
      cases answer with
      | none =>
        refine ⟨rfl, ?_⟩
        intro item h
        cases h
      | some tuple =>
        refine ⟨rfl, ?_⟩
        intro item h cause hcause
        cases h
        cases hcause
  · rw [if_neg hlt, if_neg hlt]
    refine ⟨rfl, ?_⟩
    intro item h
    cases h

/-- Reads of two files that run come to their end without a crash, and fail with a fault of the
format if they do. What the files hold does not matter, nor which ordinal, offset or key is asked
for. -/
theorem reads_end_in_format_faults (log : x.log.file.Runs fs logBytes)
    (index : x.file.Runs fs indexBytes) : x.ReadsEnd fs where
  tupleAtOffset := Log.endsAs_tupleAt log
  keyAtOffset := Log.endsAs_keyAt log
  scan := Log.endsAs_scan log
  offsets := Log.endsAs_offsets log
  offsetAt := endsAs_offsetAt index
  keyAt := endsAs_keyAt log index
  tupleAt := endsAs_tupleAt log index
  positions := endsAs_positions log index
  step _ := step_ends log index

/-- A log whose only record says that its key is of length -1. -/
def garbledLog : Bytes :=
  FileFormat.tupleLog.magic ++ Word.big 2 0xffff ++ List.replicate 24 0

/-- An index of that record, of one beyond the log and of one in front of it. -/
def garbledIndex : Bytes :=
  FileFormat.keyIndex.magic ++ Word.big 4 10 ++ Word.big 4 0x7fffffff ++ Word.big 4 0xffffffff

/-- Both files while they run, the log mapped and the index buffered. -/
def garbled : KeyIndex where
  file := ⟨.keyIndex, ⟨"x.idx"⟩, .buffered, ⟨.running, 0, none⟩,
    some (.buffered 0 garbledIndex.length)⟩
  log := ⟨.tupleLog, ⟨"x.sst"⟩, .mapped, ⟨.running, 0, none⟩, some (.mapped garbledLog)⟩

set_option maxRecDepth 1000 in
theorem reads_of_garbled_files_end :
    garbled.log.file.Runs ⟨[], [garbledIndex]⟩ garbledLog ∧
      garbled.file.Runs ⟨[], [garbledIndex]⟩ garbledIndex ∧
      garbled.ReadsEnd ⟨[], [garbledIndex]⟩ ∧
      garbled.tupleAt ⟨[], [garbledIndex]⟩ 0 =
        .error (.formatIn ⟨"x.sst"⟩ (.record 10 (.negativeLength "key" (-1)))) ∧
      garbled.tupleAt ⟨[], [garbledIndex]⟩ 1 =
        .error (.formatIn ⟨"x.sst"⟩ (.range 26 2147483647 36)) ∧
      garbled.offsetAt ⟨[], [garbledIndex]⟩ 2 =
        .error (.formatIn ⟨"x.idx"⟩ (.indexOffset (-1) 2)) ∧
      garbled.offsetAt ⟨[], [garbledIndex]⟩ 4611686018427387904 =
        .error (.formatIn ⟨"x.idx"⟩ (.ordinal 4611686018427387904)) := by
  have log : garbled.log.file.Runs ⟨[], [garbledIndex]⟩ garbledLog :=
    ⟨rfl, by decide, ⟨_, rfl, .mapped⟩, by decide⟩
  have index : garbled.file.Runs ⟨[], [garbledIndex]⟩ garbledIndex :=
    ⟨rfl, by decide, ⟨_, rfl, .buffered rfl⟩, by decide⟩
  refine ⟨log, index, reads_end_in_format_faults log index, ?_, ?_, ?_, ?_⟩
  · rfl
  · rfl
  · rfl
  · rw [offsetAt]
    exact if_pos (by decide)

end KeyIndex

end SpatialSegment
