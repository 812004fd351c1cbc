import SpatialSegment.KeyIndex.Cached
import SpatialSegment.Segment.Write
import SpatialSegment.Segment.Usage

/-!
# Segments

A segment that is open for reading: its log and key index are running, its spatial index and summary
are in memory, and a gate stands in front of the key search. A filter that is missing or broken
leaves the gate open. Reads count what they do. A closed segment answers every read with nothing.

Deletion takes the files away when the last user leaves; files that resist stay.
-/

namespace SpatialSegment

/-- What reads have done so far. -/
structure ReadCounts where
  keyLookups : Nat
  gateStops : Nat
  regionQueries : Nat
  tuplesRead : Nat
  bytesRead : Nat
deriving DecidableEq, Repr

def ReadCounts.zero : ReadCounts := ⟨0, 0, 0, 0, 0⟩

structure Segment where
  table : TableName
  number : UInt64
  files : SegmentPaths
  index : CachedIndex
  tree : RTree
  gate : Gate
  summary : Summary
  counts : ReadCounts
  usage : Usage

namespace Segment

/-- The gate from the file of a filter. -/
def loadGate (fs : FileSystem) (path : Path) : Gate :=
  match fs.read path with
  | .error _ => Gate.absent
  | .ok bs =>
    match Gate.ofBytes bs with
    | .ok gate => gate
    | .error _ => Gate.absent

def loadSummary (fs : FileSystem) (path : Path) : Result Summary :=
  match fs.read path with
  | .error cause => .error (.fileIo path 0 cause)
  | .ok bs => (Summary.ofBytes bs).mapError (.formatIn path)

def open? (fs : FileSystem) (base : Path) (table : TableName) (number : UInt64)
    (config : Config) : Except Failure Segment := do
  let files := SegmentPaths.ofNumber table base number
  let (started, logFile) := (Log.new files.log config.mode).file.init fs
  started.mapError .error
  let (started, index) := (CachedIndex.new files.keyIndex config.mode ⟨logFile⟩).init fs
  started.mapError .error
  let index ← index.activate config.cacheCapacity
  let tree ← (RTree.load fs files.spatialIndex).mapError .error
  let summary ← (loadSummary fs files.summary).mapError .error
  let gate := if config.useFilter then loadGate fs files.filter else Gate.absent
  return { table, number, files, index, tree, gate, summary
           counts := ReadCounts.zero, usage := Usage.none }

/-! ## Reads -/

/-- Reads that count what they do, also when they fail. -/
abbrev Reading := ExceptT Failure (StateM Segment)

def count (change : ReadCounts → ReadCounts) : Reading Unit :=
  modify fun s => { s with counts := change s.counts }

def countTuple (t : Tuple) : Reading Unit :=
  count fun c =>
    { c with tuplesRead := c.tuplesRead + 1, bytesRead := c.bytesRead + Record.storedLen t }

def ofResult {α : Type} (result : Result α) : Reading α :=
  ExceptT.mk (pure (result.mapError .error))

/-- An answer through the cache of the index. -/
def lookup {α : Type} (answer : Lookup α) : Reading α :=
  ExceptT.mk fun s =>
    let (result, index) := s.index.run answer
    (result.mapError .error, { s with index })

/-- The tuples at offsets of the log, as far as it is open. -/
def readTuples (fs : FileSystem) : List Nat → Reading (List Tuple)
  | [] => return []
  | offset :: rest => do
    match ← ofResult ((← get).index.log.tupleAt fs offset) with
    | none => readTuples fs rest
    | some t =>
      countTuple t
      return t :: (← readTuples fs rest)

/-- All tuples with the key. -/
def tuplesOf (fs : FileSystem) (key : String) : Reading (List Tuple) := do
  count fun c => { c with keyLookups := c.keyLookups + 1 }
  match (← get).gate.passes? key with
  | none => throw .aborted
  | some false =>
    count fun c => { c with gateStops := c.gateStops + 1 }
    return []
  | some true =>
    let positions ← lookup ((← get).index.index.positions fs key)
    readTuples fs positions

/-- All tuples whose boxes touch the region, the full space having no box to touch it with. -/
def tuplesIn (fs : FileSystem) (region : Box) : Reading (List Tuple) := do
  count fun c => { c with regionQueries := c.regionQueries + 1 }
  readTuples fs (((← get).tree.query region).map Entry.offset)

/-- The tuple with a place in the order of keys. -/
def tupleAt (fs : FileSystem) (ordinal : Nat) : Reading (Option Tuple) := do
  let index := (← get).index.index
  if index.length ≤ ordinal then return none
  let t ← ofResult (index.tupleAt fs ordinal)
  if let some t := t then countTuple t
  return t

/-- All tuples in the order of keys, up to one that cannot be read. -/
def items (fs : FileSystem) (s : Segment) : List (Result Tuple) :=
  let index := s.index.index
  index.drain fs index.cursor

/-- The items that satisfy a condition, and those that cannot be read. -/
def itemsMatching (fs : FileSystem) (s : Segment) (condition : Tuple → Bool) :
    List (Result Tuple) :=
  (s.items fs).filter fun item =>
    match item with
    | .ok t => condition t
    | .error _ => true

/-- The number of records that the open key index holds. -/
def indexedTuples (s : Segment) : Nat :=
  s.index.index.length

/-- The lengths of log and key index on the file system. -/
def diskLen (fs : FileSystem) (s : Segment) : Nat :=
  s.index.log.file.diskLen fs + s.index.shared.file.diskLen fs

/-! ## End of use -/

def shutdown (s : Segment) : Segment :=
  let index := s.index.shutdown
  { s with index := { index with log := ⟨index.log.file.shutdown⟩ } }

/-- Carries out the deletion when it is due. -/
def settleDeletion (fs : FileSystem) (s : Segment) : FileSystem × Segment :=
  match s.usage.claimDeletion? with
  | none => (fs, s)
  | some usage =>
    let s := { s with usage }.shutdown
    (removeAll fs s.files.removalOrder, s)

def acquire? (s : Segment) : Option Segment :=
  s.usage.acquire?.map fun usage => { s with usage }

def release (fs : FileSystem) (s : Segment) : FileSystem × Segment :=
  match s.usage.leave? with
  | none => (fs, s)
  | some usage => { s with usage }.settleDeletion fs

def requestDeletion (fs : FileSystem) (s : Segment) : FileSystem × Segment :=
  { s with usage := s.usage.askDeletion }.settleDeletion fs

/-! ## Description -/

def regionText : Option UInt64 → String
  | none => "None"
  | some region => "Some(" ++ Text.uint64Text region ++ ")"

def boolText (b : Bool) : String :=
  if b then "true" else "false"

/-- One line that tells name, number, records and use. -/
def describe (s : Segment) : String :=
  "SegmentFacade \x7b name: SegmentName \x7b group: " ++ Text.quoted s.table.group ++
    ", table: " ++ Text.quoted s.table.table ++ ", region: " ++ regionText s.table.region ++
    " \x7d, number: " ++ Text.uint64Text s.number ++
    s!", tuples: {s.indexedTuples}, usage: {s.usage.users}, delete_on_close: " ++
    boolText s.usage.deleteAsked ++ " \x7d"

end Segment

end SpatialSegment
