import SpatialSegment.File.System

/-!
# Views of an open file

A file is read in ranges. A mapped view holds the content that the file had when it was opened; a
buffered one remembers the file and its length at that time and reads what the file holds now. They
differ in what they say about a range that is not there, and a buffered view cannot go to offsets
that a signed word of eight bytes does not hold. Nor can there be a buffer of such a length: to ask
for one is not defined.
-/

namespace SpatialSegment

inductive ReadMode where
  | mapped
  | buffered
deriving DecidableEq, Repr

inductive View where
  | mapped (content : Bytes)
  | buffered (file length : Nat)

namespace View

/-- Directories can be opened but not read. -/
def open? (fs : FileSystem) (p : Path) (mode : ReadMode) : Except IoFault View := do
  match ← fs.find p, mode with
  | .file id, .mapped => return .mapped (fs.content id)
  | .file id, .buffered => return .buffered id (fs.content id).length
  | .directory, .mapped => throw .noDevice
  | .directory, .buffered => throw .isDirectory

/-- The length of the file when it was opened. -/
def length : View → Nat
  | mapped content => content.length
  | buffered _ length => length

def isMapped : View → Bool
  | mapped _ => true
  | buffered .. => false

/-- The first offset that a buffered view cannot go to, and the first length of no buffer. -/
def signedLimit : Nat := 0x8000000000000000

def slice (fs : FileSystem) : View → (offset len : Nat) → Except IoFault Bytes
  | mapped content, offset, len =>
    match content.slice? offset len with
    | some bs => .ok bs
    | none => .error .endOfFile
  | buffered file _, offset, len =>
    if signedLimit ≤ offset then .error .invalidInput
    else
      let bs := ((fs.content file).drop offset).take len
      if bs.length = len then .ok bs else .error .unfilledBuffer

/-- The range, where a read of its length is defined. -/
def slice? (fs : FileSystem) (v : View) (offset len : Nat) : Option (Except IoFault Bytes) :=
  if v.isMapped ∨ len < signedLimit then some (v.slice fs offset len) else none

end View

end SpatialSegment
