import SpatialSegment.File.Guarded
import SpatialSegment.Tuple.Record

/-!
# The tuple log

The records of a segment one behind the other, after the preamble, in the order of their keys. A
record is found by its offset; without one, the log is read from the front, and a search stops at
the first key behind the one it looks for. A log whose service does not run answers nothing.
-/

namespace SpatialSegment

structure Log where
  file : GuardedFile

namespace Log

def new (path : Path) (mode : ReadMode) : Log :=
  ⟨GuardedFile.new .tupleLog path mode⟩

/-- A fault of the record at an offset. -/
def faultAt (log : Log) (offset : Nat) (cause : FormatFault) : SegmentError :=
  .formatIn log.file.path (.record offset cause)

/-- The length of the record at an offset, as its header tells. -/
def announcedLenAt (fs : FileSystem) (log : Log) (view : View) (offset : Nat) : Result Nat := do
  let header ← log.file.read fs view offset Record.headerLen
  (Record.announcedLen header).mapError (log.faultAt offset)

/-- The tuple at an offset, from a record of known length. -/
def readRecord (fs : FileSystem) (log : Log) (view : View) (offset len : Nat) : Result Tuple := do
  let record ← log.file.read fs view offset len
  ((Record.decode record 0).map Prod.fst).mapError (log.faultAt offset)

def tupleAt (fs : FileSystem) (log : Log) (offset : Nat) : Result (Option Tuple) :=
  log.file.use fun view => do
    let len ← log.announcedLenAt fs view offset
    log.readRecord fs view offset len

/-- The key of the record at an offset, read without the rest of the record. -/
def keyAt (fs : FileSystem) (log : Log) (offset : Nat) : Result (Option String) :=
  log.file.use fun view => do
    let header ← log.file.read fs view offset Record.headerLen
    let keyLen := Word.signed 2 (Word.ofBig (header.take 2))
    if keyLen < 0 then throw (.formatIn log.file.path (.keyLength keyLen offset))
    let record ← log.file.read fs view offset (Record.headerLen + keyLen.toNat)
    ((Record.peekKey record 0).map Prod.fst).mapError (log.faultAt offset)

theorem headerLen_le_of_announcedLenAt {fs : FileSystem} {log : Log} {view : View}
    {offset len : Nat} (h : log.announcedLenAt fs view offset = .ok len) :
    Record.headerLen ≤ len := by
  unfold announcedLenAt at h
  cases hread : log.file.read fs view offset Record.headerLen with
  | error cause =>
    rw [hread] at h
    cases h
  | ok header =>
    rw [hread] at h
    cases hlen : Record.announcedLen header with
    | error cause =>
      have refused : (Record.announcedLen header).mapError (log.faultAt offset) = .ok len := h
      rw [hlen] at refused
      cases refused
    | ok n =>
      have told : (Record.announcedLen header).mapError (log.faultAt offset) = .ok len := h
      rw [hlen] at told
      cases told
      exact Record.headerLen_le_announcedLen hlen

/-- Behind a record is the next one, as far as headers tell. -/
@[elab_as_elim]
theorem record_induction (fs : FileSystem) (log : Log) (view : View) {motive : Nat → Prop}
    (turn : ∀ offset, (∀ len, offset < view.length → log.announcedLenAt fs view offset = .ok len →
      motive (offset + len)) → motive offset)
    (offset : Nat) : motive offset := by
  induction hk : view.length - offset using Nat.strongRecOn generalizing offset with
  | ind k ih =>
    refine turn offset fun len hlt hlen => ih (view.length - (offset + len)) ?_ _ rfl
    have hle := headerLen_le_of_announcedLenAt hlen
    rw [Record.headerLen] at hle
    omega

/-- Searches the records from an offset on. -/
def scanFrom (fs : FileSystem) (log : Log) (view : View) (key : String) (offset : Nat) :
    Result (Option Tuple) :=
  if offset < view.length then
    match _h : log.announcedLenAt fs view offset with
    | .error cause => .error cause
    | .ok len =>
      match log.readRecord fs view offset len with
      | .error cause => .error cause
      | .ok tuple =>
        match Text.compare tuple.key key with
        | .eq => .ok (some tuple)
        | .gt => .ok none
        | .lt => scanFrom fs log view key (offset + len)
  else .ok none
termination_by view.length - offset
decreasing_by
  have := headerLen_le_of_announcedLenAt _h
  simp only [Record.headerLen] at this
  omega

/-- The first tuple with the key in a log that is sorted by key. -/
def scan (fs : FileSystem) (log : Log) (key : String) : Result (Option Tuple) := do
  let found ← log.file.use fun view => scanFrom fs log view key FileFormat.bodyStart
  return found.join

/-- The offsets of the records from one on, as their headers tell. -/
def offsetsFrom (fs : FileSystem) (log : Log) (view : View) (offset : Nat) : Result (List Nat) :=
  if offset < view.length then
    match _h : log.announcedLenAt fs view offset with
    | .error cause => .error cause
    | .ok len => (offsetsFrom fs log view (offset + len)).map (offset :: ·)
  else .ok []
termination_by view.length - offset
decreasing_by
  have := headerLen_le_of_announcedLenAt _h
  simp only [Record.headerLen] at this
  omega

def offsets (fs : FileSystem) (log : Log) : Result (List Nat) := do
  let found ← log.file.use fun view => offsetsFrom fs log view FileFormat.bodyStart
  return found.getD []

end Log

end SpatialSegment
