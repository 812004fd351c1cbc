import SpatialSegment.RTree
import SpatialSegment.Box.Stored

/-!
# The spatial index as bytes

The file holds a preamble, the node size, and the nodes breadth first. A node is its number, the
length of its box, the box, one slot per entry it may list, and one word per child it may list. A
slot is a marker, followed by the entry if there is one; a word is the offset of the child, or -1.

Writing goes over the nodes twice. The first pass writes every word for a child as -1 and notes at
which offset each number stands and at which offset the words of each node begin; the second one
goes back to the words and fills in the offsets. A child is looked up by its number: nodes that
share one are all found at the place of the last of them.

Writing ends early at what the format cannot hold; what has been written by then stays.
-/

namespace SpatialSegment

/-- Offset, length of the box, and the box. -/
def Entry.toBytes (e : Entry) : Except ArgumentFault Bytes :=
  if Word.maxSigned32 < e.offset then .error (.entryOffset e.offset)
  else if Word.maxSigned32 < e.box.storedLen then .error .longBox
  else .ok (Word.big 4 e.offset ++ Word.big 4 e.box.storedLen ++ e.box.toBytes)

namespace RTree

/-- The positions of a queue and all positions below them, level by level. -/
def Arena.breadthFirst (a : Arena) (max : Nat) : List Nat → Option (List Nat)
  | [] => some []
  | i :: queue =>
    match a[i]? with
    | none => none
    | some n => do
      let rest ← a |>.breadthFirst max (queue ++ n.children.take max)
      return i :: rest
partial_fixpoint

def entryMarker : UInt8 := 1

def absentMarker : UInt8 := 0

/-- The word of a child that is not there. -/
def absentChild : Bytes := [0xff, 0xff, 0xff, 0xff]

/-- Slots for the entries, at most `max` of them. -/
def slots (max : Nat) (entries : List Entry) : Except ArgumentFault Bytes := do
  let filled ← (entries.take max).mapM Entry.toBytes
  return (filled.flatMap (entryMarker :: ·)) ++
    List.replicate (max - entries.length) absentMarker

/-- A node up to its children. -/
def Node.head (max : Nat) (n : Node) : Except ArgumentFault Bytes := do
  if Word.maxSigned32 < n.box.storedLen then throw .longBox
  let slots ← slots max n.entries
  return Word.big 4 n.id ++ Word.big 4 n.box.storedLen ++ n.box.toBytes ++ slots

/-- What the first pass has written, the offset of each number, the latest first, and the nodes
written with the offsets of the words for their children. -/
structure FirstPass where
  file : Bytes
  places : List (Nat × Nat)
  patches : List (Nat × Node)

/-- One node more, with no child filled in. -/
def FirstPass.write (p : FirstPass) (max : Nat) (n : Node) (head : Bytes) : FirstPass where
  file := p.file ++ head ++ (List.replicate max absentChild).flatten
  places := (n.id, p.file.length) :: p.places
  patches := p.patches ++ [(p.file.length + head.length, n)]

/-- The nodes one behind the other up to the first that cannot be written, and why it cannot. -/
def FirstPass.writeAll (max : Nat) (p : FirstPass) :
    List Node → FirstPass × Except ArgumentFault Unit
  | [] => (p, .ok ())
  | n :: rest =>
    match n.head max with
    | .error cause => (p, .error cause)
    | .ok head => (p.write max n head).writeAll max rest

/-- The file with other bytes from an offset on. -/
def overwrite (file : Bytes) (offset : Nat) (bs : Bytes) : Bytes :=
  file.take offset ++ bs ++ file.drop (offset + bs.length)

/-- The word for the child with a number. -/
def childWord (places : List (Nat × Nat)) (id : Nat) : Except SegmentError Bytes :=
  match places.lookup id with
  | none => .error (.invalidOperation (.unwrittenNode id))
  | some offset =>
    if Word.maxSigned32 < offset then .error (.invalidArgument .spatialIndexLength)
    else .ok (Word.big 4 offset)

/-- The words for the children with the numbers, from an offset of the file on. -/
def fillIn (places : List (Nat × Nat)) (file : Bytes) (offset : Nat) :
    List Nat → Bytes × Except SegmentError Unit
  | [] => (file, .ok ())
  | id :: rest =>
    match childWord places id with
    | .error cause => (file, .error cause)
    | .ok word => fillIn places (overwrite file offset word) (offset + 4) rest

/-- The number of the node at a position. -/
def Arena.idAt (a : Arena) (i : Nat) : Nat :=
  (a[i]?.map Node.id).getD 0

/-- The second pass. -/
def Arena.fillInAll (a : Arena) (places : List (Nat × Nat)) (file : Bytes) :
    List (Nat × Node) → Bytes × Except SegmentError Unit
  | [] => (file, .ok ())
  | (offset, n) :: rest =>
    match fillIn places file offset (n.children.map a.idAt) with
    | (file, .error cause) => (file, .error cause)
    | (file, .ok ()) => a.fillInAll places file rest

/-- Preamble and node size. -/
def preamble (maxNodeSize : Nat) : Bytes :=
  FileFormat.spatialIndex.magic ++ Word.big 4 maxNodeSize

/-- The offset of the root. -/
def rootOffset : Nat := 14

/-- The nodes in the order in which they are written. -/
def storedNodes (t : RTree) : List Node :=
  ((t.nodes.breadthFirst t.maxNodeSize [rootPosition]).getD []).filterMap (t.nodes[·]?)

/-- What has been written when writing has come to its end, and how it ended. -/
def image (t : RTree) : Bytes × Except SegmentError Unit :=
  if Word.maxSigned32 < t.maxNodeSize then
    ([], .error (.invalidArgument .nodeSizeBeyondFormat))
  else
    let start : FirstPass := ⟨preamble t.maxNodeSize, [], []⟩
    match start.writeAll t.maxNodeSize t.storedNodes with
    | (pass, .error cause) => (pass.file, .error (.invalidArgument cause))
    | (pass, .ok ()) => t.nodes.fillInAll pass.places pass.file pass.patches

/-- The bytes of the index. -/
def toBytes (t : RTree) : Except SegmentError Bytes :=
  t.image.2.map fun _ => t.image.1

end RTree

end SpatialSegment
