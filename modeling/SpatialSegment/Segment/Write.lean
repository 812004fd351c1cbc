import SpatialSegment.Log
import SpatialSegment.Filter
import SpatialSegment.Summary
import SpatialSegment.RTree.Saved
import SpatialSegment.Segment.Paths
import SpatialSegment.Segment.Config

/-!
# Writing a segment

The tuples are sorted by the bytes of their keys, tuples with one key in the order given, and
written to the log, key index, spatial index, membership filter and summary of the segment, in this
order. A segment is written once: if its log is there nothing is done. After an error all five files
are removed. A filter for a share of wrong answers that is not between 0 and 1 is not defined: then
the call breaks off, and what has been written stays.
-/

namespace SpatialSegment

/-- Steps that change files, and what they change also when they fail. -/
abbrev Writing := ExceptT Failure (StateM FileSystem)

namespace Writing

def ofResult {α : Type} (result : Result α) : Writing α :=
  ExceptT.mk (pure (result.mapError .error))

/-- A whole file. -/
def file (path : Path) (bs : Bytes) : Writing Unit :=
  ExceptT.mk fun fs =>
    match fs.write path bs with
    | .ok fs => (.ok (), fs)
    | .error cause => (.error (.error (.fileIo path 0 cause)), fs)

/-- Steps after which an error, but no end without one, is followed by others. -/
def onError {α : Type} (steps : Writing α) (after : FileSystem → FileSystem) : Writing α :=
  ExceptT.mk fun fs =>
    match steps.run.run fs with
    | (.error (.error cause), fs) => (.error (.error cause), after fs)
    | done => done

end Writing

namespace Segment

/-- The tuples in the order of the log. -/
def sorted (tuples : List Tuple) : List Tuple :=
  tuples.mergeSort fun a b => Text.compare a.key b.key != .gt

/-- The records from an offset on up to the first that cannot be written, and the offsets of all, if
all can be. -/
def records (path : Path) (offset : Nat) : List Tuple → Bytes × Result (List Nat)
  | [] => ([], .ok [])
  | t :: rest =>
    if Word.maxSigned32 < offset then ([], .error (.invalidArgument (.logLength path)))
    else
      match Record.encode t with
      | .error cause => ([], .error (.invalidArgument cause))
      | .ok record =>
        let (more, offsets) := records path (offset + record.length) rest
        (record ++ more, offsets.map (offset :: ·))

def writeLog (path : Path) (tuples : List Tuple) : Writing (List Nat) := do
  let (bs, offsets) := records path FileFormat.bodyStart tuples
  Writing.file path (FileFormat.tupleLog.magic ++ bs)
  Writing.ofResult offsets

def indexWord (offset : Nat) : Result Bytes :=
  if Word.maxSigned32 < offset then .error (.invalidArgument (.indexOffset offset))
  else .ok (Word.big 4 offset)

def writeIndex (path : Path) (offsets : List Nat) : Writing Unit := do
  let words ← Writing.ofResult (offsets.mapM indexWord)
  Writing.file path (FileFormat.keyIndex.magic ++ words.flatten)

/-- What the spatial index holds: the boxes that have a place in it, with the offsets of their
records. -/
def spatialEntries (tuples : List Tuple) (offsets : List Nat) : List Entry :=
  (tuples.zip offsets).filterMap fun (t, offset) =>
    if t.box.isFullSpace then none else some ⟨t.box, offset⟩

def writeSpatialIndex (path : Path) (t : RTree) : Writing Unit :=
  ExceptT.mk fun fs =>
    let (result, fs) := t.save fs path
    (result.mapError .error, fs)

def writeFilter (path : Path) (seed : Bytes) (keys : List String) (rate : Float) :
    Writing Unit := do
  match Filter.build? seed keys keys.length rate with
  | some filter => Writing.file path filter.toBytes
  | none => throw .aborted

/-- The five files of sorted tuples. -/
def writeAll (files : SegmentPaths) (table : TableName) (number : UInt64) (config : Config)
    (tree : RTree) (seed : Bytes) (tuples : List Tuple) : Writing Unit := do
  let summary ← Writing.ofResult ((Summary.ofTuples tuples).mapError .invalidArgument)
  let offsets ← writeLog files.log tuples
  writeIndex files.keyIndex offsets
  let (tree, all) := tree.insertAll (spatialEntries tuples offsets)
  if !all then
    throw (.error (.invalidArgument (.segmentDimensions number table.text)))
  writeSpatialIndex files.spatialIndex tree
  if config.useFilter then
    writeFilter files.filter seed (tuples.map Tuple.key) config.filterRate
  Writing.file files.summary summary.toBytes

/-- Removes the files that can be removed. -/
def removeAll (fs : FileSystem) (paths : List Path) : FileSystem :=
  paths.foldl (fun fs path => ((fs.removeIfPresent path).toOption).getD fs) fs

/-- The directory of the table. -/
def makeDirectory (directory : Path) : Writing Unit :=
  ExceptT.mk fun fs =>
    let (result, fs) := fs.makeDirectories directory
    (result.mapError fun cause => .error (.fileIo directory 0 cause), fs)

/-- Writes the segment with the number and gives the paths of its files. The seed is for the filter.
-/
def write (base : Path) (table : TableName) (number : UInt64) (config : Config) (seed : Bytes)
    (tuples : List Tuple) : Writing SegmentPaths := do
  let files := SegmentPaths.ofNumber table base number
  if (← get).isPresent files.log then
    throw (.error (.invalidOperation (.segmentExists number table.text)))
  let tree ← Writing.ofResult
    ((RTree.ofMaxNodeSize config.maxNodeSize).mapError .invalidArgument)
  makeDirectory (table.directory base)
  Writing.onError (writeAll files table number config tree seed (sorted tuples))
    (removeAll · files.toList)
  return files

end Segment

end SpatialSegment
