import SpatialSegment.Box

/-!
# Boxes as bytes

A box is stored as the bits of its ends in eight bytes each, low end before high end, dimension
after dimension. Reading takes any bytes whose length is that of whole intervals and refuses those
that describe no box.
-/

namespace SpatialSegment

namespace Box

def storedLen (b : Box) : Nat :=
  b.intervals.length * 16

def toBytes (b : Box) : Bytes :=
  b.coords.flatMap fun c => Word.big 8 c.bits.toNat

/-- The words of eight bytes; a shorter rest is dropped. -/
def words : Bytes → List Coord
  | b0 :: b1 :: b2 :: b3 :: b4 :: b5 :: b6 :: b7 :: rest =>
    ⟨UInt64.ofNat (Word.ofBig [b0, b1, b2, b3, b4, b5, b6, b7])⟩ :: words rest
  | _ => []

def ofBytes (bs : Bytes) : Except FormatFault Box :=
  if bs.length % 16 ≠ 0 then .error (.boxLength bs.length)
  else (ofCoords (words bs)).mapError .box

end Box

end SpatialSegment
