import SpatialSegment.Word

/-!
# Formats of segment files

A file of a segment begins with a preamble of ten bytes that tells its format. Behind it the log and
the spatial index hold records of different lengths, the key index records of four bytes.
-/

namespace SpatialSegment

/-- The formats of the files that begin with a preamble. -/
inductive FileFormat where
  | tupleLog
  | keyIndex
  | spatialIndex
deriving DecidableEq, Repr

namespace FileFormat

def name : FileFormat → String
  | .tupleLog => "tuple log"
  | .keyIndex => "key index"
  | .spatialIndex => "spatial index"

/-- The three letters that end the preamble. -/
def letters : FileFormat → Bytes
  | .tupleLog => [0x6c, 0x6f, 0x67]
  | .keyIndex => [0x69, 0x64, 0x78]
  | .spatialIndex => [0x72, 0x74, 0x72]

/-- Seven letters that all preambles share, and the letters of the format. -/
def magic (format : FileFormat) : Bytes :=
  [0x62, 0x62, 0x6f, 0x78, 0x64, 0x62, 0x2d] ++ format.letters

def suffix : FileFormat → String
  | .tupleLog => ".sst"
  | .keyIndex => ".idx"
  | .spatialIndex => ".sidx"

/-- The length of a record, where all records have one. -/
def recordLen : FileFormat → Option Nat
  | .tupleLog => none
  | .keyIndex => some 4
  | .spatialIndex => none

/-- The offset of the first record. -/
def bodyStart : Nat := 10

theorem length_magic (format : FileFormat) : format.magic.length = bodyStart := by
  cases format <;> rfl

end FileFormat

end SpatialSegment
