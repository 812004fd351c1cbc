import SpatialSegment.Word

/-!
# Keyed hash of bytes

SipHash with one round per block and three rounds at the end: bytes are taken in blocks of eight,
the last block is filled up with zeros and carries the number of bytes modulo 256 in its highest
byte. The key is two words of 64 bits.
-/

namespace SpatialSegment

namespace Hash

structure State where
  v0 : UInt64
  v1 : UInt64
  v2 : UInt64
  v3 : UInt64

def rotate (x n : UInt64) : UInt64 :=
  (x <<< n) ||| (x >>> (64 - n))

def State.init (k0 k1 : UInt64) : State where
  v0 := k0 ^^^ 0x736f6d6570736575
  v1 := k1 ^^^ 0x646f72616e646f6d
  v2 := k0 ^^^ 0x6c7967656e657261
  v3 := k1 ^^^ 0x7465646279746573

def State.round (s : State) : State :=
  let v0 := s.v0 + s.v1
  let v1 := rotate s.v1 13 ^^^ v0
  let v0 := rotate v0 32
  let v2 := s.v2 + s.v3
  let v3 := rotate s.v3 16 ^^^ v2
  let v0 := v0 + v3
  let v3 := rotate v3 21 ^^^ v0
  let v2 := v2 + v1
  let v1 := rotate v1 17 ^^^ v2
  let v2 := rotate v2 32
  ⟨v0, v1, v2, v3⟩

def State.absorb (s : State) (block : UInt64) : State :=
  let s := { s with v3 := s.v3 ^^^ block }.round
  { s with v0 := s.v0 ^^^ block }

def State.finish (s : State) : UInt64 :=
  let s := { s with v2 := s.v2 ^^^ 0xff }.round.round.round
  s.v0 ^^^ s.v1 ^^^ s.v2 ^^^ s.v3

def word (bs : Bytes) : UInt64 :=
  UInt64.ofNat (Word.ofLittle bs)

/-- The whole blocks, then the rest with the length of all bytes. -/
def State.absorbAll (length : Nat) (s : State) : Bytes → State
  | b0 :: b1 :: b2 :: b3 :: b4 :: b5 :: b6 :: b7 :: rest =>
    (s.absorb (word [b0, b1, b2, b3, b4, b5, b6, b7])).absorbAll length rest
  | rest => s.absorb (word rest ||| (UInt64.ofNat length <<< 56))

/-- The hash of bytes under a key of sixteen bytes. -/
def sip13 (key : Bytes) (bs : Bytes) : UInt64 :=
  ((State.init (word (key.take 8)) (word ((key.drop 8).take 8))).absorbAll bs.length bs).finish

end Hash

end SpatialSegment
