import SpatialSegment.Coord.Text
import SpatialSegment.Text.Quoted
import SpatialSegment.Text.Utf8
import SpatialSegment.File.Path
import SpatialSegment.File.Format
import SpatialSegment.Lifecycle.Status

/-!
# What can go wrong

Every failure is recorded by its cause. The causes fall into classes: a value that no caller should
have passed, a call that does not fit the state, stored bytes that break the format, and the
refusals of the file system. The wording of a cause is in one `message` function per class.

A call whose input it is not defined for, such as a membership filter without bits, ends in no value
and no error; `Failure.aborted` stands for that end.
-/

namespace SpatialSegment

/-- A value that breaks a rule of the domain. -/
inductive ArgumentFault where
  | oddCoordinates (count : Nat)
  | invalidInterval (lo hi : Coord) (dimension : Nat)
  | mixedDimensions (left right : Nat)
  | boxText (text : String)
  | emptyKey
  | longKey (length : Nat)
  | longField (field : String) (length : Nat)
  | longBox
  | nodeSize (size : Nat)
  | nodeSizeBeyondFormat
  | entryOffset (offset : Nat)
  | indexOffset (offset : Nat)
  | spatialIndexLength
  | logLength (path : Path)
  | segmentDimensions (number : UInt64) (table : String)
  | namePart (what part : String)
  | nameRegion (text : String)
  | nameParts (text : String)
  | other (text : String)

def ArgumentFault.message : ArgumentFault → String
  | .oddCoordinates count => s!"a box needs an even number of coordinates, got {count}"
  | .invalidInterval lo hi dimension =>
    "invalid interval [" ++ lo.text ++ "," ++ hi.text ++ s!"] in dimension {dimension}"
  | .mixedDimensions left right =>
    s!"cannot cover a box of dimension {left} and a box of dimension {right}"
  | .boxText text => "invalid box string: " ++ text
  | .emptyKey => "tuple key must not be empty"
  | .longKey length => s!"key of {length} bytes is too long"
  | .longField field length => s!"{field} of {length} bytes is too long"
  | .longBox => "bounding box too large"
  | .nodeSize size => s!"max node size must be at least 2, got {size}"
  | .nodeSizeBeyondFormat => "max node size exceeds the index format"
  | .entryOffset offset => s!"log offset {offset} exceeds the index format"
  | .indexOffset offset => s!"log offset {offset} exceeds 2 GiB"
  | .spatialIndexLength => "spatial index exceeds 2 GiB"
  | .logLength path => "tuple log " ++ path.text ++ " exceeds 2 GiB"
  | .segmentDimensions number table =>
    s!"tuples of segment {number.toNat} of {table} mix bounding box dimensions"
  | .namePart what part => s!"invalid {what} name: " ++ Text.quoted part
  | .nameRegion text => "invalid region in " ++ Text.quoted text
  | .nameParts text => "invalid table name " ++ Text.quoted text
  | .other text => text

/-- A call that does not fit the state. -/
inductive OperationFault where
  | cannotStart (format : FileFormat) (path : Path) (status : Status)
  | cacheActive
  | segmentExists (number : UInt64) (table : String)
  | unwrittenNode (id : Nat)
  | other (text : String)

def OperationFault.message : OperationFault → String
  | .cannotStart format path status =>
    format.name ++ " " ++ path.text ++ " cannot start while " ++ status.name
  | .cacheActive => "key cache is already active"
  | .segmentExists number table => s!"segment {number.toNat} of {table} already exists"
  | .unwrittenNode id => s!"node {id} was never written"
  | .other text => text

/-- Why the bytes of a summary are refused. -/
inductive SummaryFault where
  | cutOff (missing : Nat)
  | box (cause : ArgumentFault)

/-- Why the bytes of a membership filter are refused. -/
inductive FilterFault where
  | length
  | version
  | probes

def FilterFault.message : FilterFault → String
  | .length => "Invalid size"
  | .version => "Version mismatch"
  | .probes => "Invalid number of keys"

/-- Stored bytes that break a format. `within` names the file, `record` the record in it. -/
inductive FormatFault where
  | shortRecord (need position available : Nat)
  | negativeLength (field : String) (length : Int)
  | keyText (fault : Text.Fault)
  | boxLength (length : Nat)
  | box (cause : ArgumentFault)
  | shortSpatialIndex
  | spatialPreamble
  | nodeSize (size : Int)
  | nodeId (id : Int)
  | shortBox
  | entryMarker (marker : UInt8) (node : Nat)
  | entryOffset (offset : Int)
  | childOffset (offset : Int) (node : Nat)
  | entriesAndChildren (node : Nat)
  | sharedNode (offset : Nat)
  | shortFile (length : Nat) (format : FileFormat)
  | preamble (format : FileFormat)
  | body (length recordLen : Nat)
  | range (length offset fileLength : Nat)
  | keyLength (length : Int) (offset : Nat)
  | ordinal (index : Nat)
  | indexOffset (offset : Int) (ordinal : Nat)
  | filter (cause : FilterFault)
  | summary (cause : SummaryFault)
  | within (path : Path) (cause : FormatFault)
  | record (offset : Nat) (cause : FormatFault)
  | other (text : String)

/-- Two lower-case hexadecimal digits. -/
def byteText (b : UInt8) : String :=
  String.ofList [Nat.digitChar (b.toNat / 16), Nat.digitChar (b.toNat % 16)]

def SummaryFault.message : SummaryFault → String
  | .cutOff missing => "UnexpectedEnd \x7b additional: " ++ s!"{missing}" ++ " \x7d"
  | .box cause => "OtherString(" ++ Text.quoted ("Invalid argument: " ++ cause.message) ++ ")"

def FormatFault.message : FormatFault → String
  | .shortRecord need position available =>
    s!"truncated record: need {need} bytes at {position}, have {available}"
  | .negativeLength field length => s!"negative {field} length {length}"
  | .keyText fault => "key is not valid UTF-8: " ++ fault.message
  | .boxLength length => s!"bounding box length {length} is not a multiple of 16"
  | .box cause => "invalid bounding box: Invalid argument: " ++ cause.message
  | .shortSpatialIndex => "truncated spatial index"
  | .spatialPreamble => "magic preamble of a spatial index file expected"
  | .nodeSize size => s!"invalid max node size {size}"
  | .nodeId id => s!"negative node id {id}"
  | .shortBox => "truncated bounding box in spatial index"
  | .entryMarker marker node => "unknown entry marker 0x" ++ byteText marker ++ s!" in node {node}"
  | .entryOffset offset => s!"negative log offset {offset} in spatial entry"
  | .childOffset offset node => s!"invalid child offset {offset} in node {node}"
  | .entriesAndChildren node => s!"node {node} holds entries and children"
  | .sharedNode offset => s!"node at offset {offset} is referenced twice"
  | .shortFile length format => s!"{length} bytes are too short for a {format.name} file"
  | .preamble format => s!"magic preamble of a {format.name} file expected"
  | .body length recordLen => s!"body of {length} bytes is not a multiple of {recordLen}"
  | .range length offset fileLength =>
    s!"truncated record: {length} bytes at offset {offset} exceed file length {fileLength}"
  | .keyLength length offset => s!"negative key length {length} at offset {offset}"
  | .ordinal index => s!"ordinal {index} is out of range"
  | .indexOffset offset index => s!"negative log offset {offset} for ordinal {index}"
  | .filter cause => "invalid bloom filter: " ++ cause.message
  | .summary cause => "invalid segment metadata: " ++ cause.message
  | .within path cause => path.text ++ ": " ++ cause.message
  | .record offset cause => s!"offset {offset}: Format error: " ++ cause.message
  | .other text => text

/-- A refusal of the file system, or the end of a file before the bytes asked for. -/
inductive IoFault where
  | notFound
  | alreadyExists
  | notDirectory
  | isDirectory
  | invalidInput
  | nameTooLong
  | zeroInName
  | noDevice
  | unfilledBuffer
  | endOfFile
  | other (text : String)
deriving DecidableEq

def IoFault.message : IoFault → String
  | .notFound => "No such file or directory (os error 2)"
  | .alreadyExists => "File exists (os error 17)"
  | .notDirectory => "Not a directory (os error 20)"
  | .isDirectory => "Is a directory (os error 21)"
  | .invalidInput => "Invalid argument (os error 22)"
  | .nameTooLong => "File name too long (os error 36)"
  | .zeroInName => "file name contained an unexpected NUL byte"
  | .noDevice => "No such device (os error 19)"
  | .unfilledBuffer => "failed to fill whole buffer"
  | .endOfFile => "unexpected end of file"
  | .other text => text

inductive SegmentError where
  | format (cause : FormatFault)
  | fileIo (path : Path) (offset : Nat) (cause : IoFault)
  | io (cause : IoFault)
  | serialization (text : String)
  | invalidArgument (cause : ArgumentFault)
  | invalidOperation (cause : OperationFault)

namespace SegmentError

def message : SegmentError → String
  | .format cause => "Format error: " ++ cause.message
  | .fileIo path offset cause =>
    "IO error on " ++ path.text ++ s!" at offset {offset}: " ++ cause.message
  | .io cause => "IO error: " ++ cause.message
  | .serialization text => "Serialization error: " ++ text
  | .invalidArgument cause => "Invalid argument: " ++ cause.message
  | .invalidOperation cause => "Invalid operation: " ++ cause.message

def isFormat : SegmentError → Bool
  | .format _ => true
  | _ => false

def isIo : SegmentError → Bool
  | .fileIo .. => true
  | .io _ => true
  | _ => false

/-- A format fault of the file at `path`. -/
def formatIn (path : Path) (cause : FormatFault) : SegmentError :=
  .format (.within path cause)

end SegmentError

/-- How a call ends that does not give its value. -/
inductive Failure where
  | error (cause : SegmentError)
  | aborted

abbrev Result := Except SegmentError

end SpatialSegment
