import SpatialSegment.Table
import SpatialSegment.File.System

/-!
# The files of a segment

The segments of a table are numbered. The five files of a segment lie in the directory of its table;
their names tell table and number, and differ in the suffix. The numbers in use are read off the
names of the logs.
-/

namespace SpatialSegment

structure SegmentPaths where
  log : Path
  keyIndex : Path
  spatialIndex : Path
  filter : Path
  summary : Path
deriving DecidableEq

namespace SegmentPaths

def nameStart : String := "sstable_"

def filterSuffix : String := ".blm"

def summarySuffix : String := ".meta"

/-- The name of the files of a segment, without suffix. -/
def nameStem (table : TableName) (number : UInt64) : String :=
  nameStart ++ table.table ++ "_" ++ Text.uint64Text number

/-- The paths of a segment, below a base directory. -/
def ofNumber (table : TableName) (base : Path) (number : UInt64) : SegmentPaths :=
  let path (suffix : String) := (table.directory base).join (nameStem table number ++ suffix)
  { log := path FileFormat.tupleLog.suffix
    keyIndex := path FileFormat.keyIndex.suffix
    spatialIndex := path FileFormat.spatialIndex.suffix
    filter := path filterSuffix
    summary := path summarySuffix }

def toList (files : SegmentPaths) : List Path :=
  [files.log, files.keyIndex, files.spatialIndex, files.filter, files.summary]

/-- The paths in the order in which a segment that is deleted removes its files. -/
def removalOrder (files : SegmentPaths) : List Path :=
  [files.keyIndex, files.log, files.spatialIndex, files.filter, files.summary]

/-- The paths at which there is something. -/
def present (fs : FileSystem) (files : SegmentPaths) : List Path :=
  files.toList.filter fs.isPresent

end SegmentPaths

namespace TableName

/-- The number of the segment whose log has the file name. -/
def numberIn? (n : TableName) (fileName : String) : Option UInt64 := do
  let rest ← Text.behind? SegmentPaths.nameStart.toList fileName.toList
  let rest ← Text.before? FileFormat.tupleLog.suffix.toList rest
  let rest ← Text.behind? n.table.toList rest
  let rest ← Text.behind? ['_'] rest
  Text.readUInt64? rest

/-- The numbers of the segments whose logs are in the directory of the table, in order. -/
def storedNumbers (fs : FileSystem) (n : TableName) (base : Path) : Result (List UInt64) :=
  let directory := n.directory base
  match fs.names directory with
  | .ok names => .ok ((names.filterMap n.numberIn?).mergeSort fun a b => a ≤ b)
  | .error .notFound => .ok []
  | .error cause => .error (.fileIo directory 0 cause)

end TableName

end SpatialSegment
