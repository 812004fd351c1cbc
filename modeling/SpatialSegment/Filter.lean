import SpatialSegment.Error
import SpatialSegment.Filter.Hash

/-!
# Membership filter

A row of bits in which every added key sets the bits at its probe positions: a key with a clear bit
at one of its positions was never added. The positions depend on nothing but the key, the seed, the
number of probes and the number of bits. A filter without bits has no positions; to ask it is not
defined.

Which positions these are is left to a placement, and how many bits and probes a filter gets to a
sizing. The placement in use takes the positions from two keyed hashes of the key.

In front of a segment stands a gate: with a filter it stops keys that the filter rules out, without
one it lets every key pass. Seeds are chosen by the caller.
-/

namespace SpatialSegment

structure Filter where
  seed : Bytes
  probes : Nat
  bits : Array UInt8

namespace Filter

/-- The bytes before the bits: version, number of bytes of bits, number of probes and seed. -/
def headerLen : Nat := 45

def version : UInt8 := 1

def mask (position : Nat) : UInt8 :=
  1 <<< UInt8.ofNat (position % 8)

def isSet (bits : Array UInt8) (position : Nat) : Bool :=
  (bits[position / 8]?.getD 0) &&& mask position != 0

def setBit (bits : Array UInt8) (position : Nat) : Array UInt8 :=
  bits.modify (position / 8) (· ||| mask position)

/-- Whether the bits at the places of `left` probes from index `i` on are all set. -/
def allSet (bits : Array UInt8) (place : Nat → Nat) (i : Nat) : (left : Nat) → Bool
  | 0 => true
  | left + 1 => isSet bits (place i) && allSet bits place (i + 1) left

def setAll (bits : Array UInt8) (place : Nat → Nat) (i : Nat) : (left : Nat) → Array UInt8
  | 0 => bits
  | left + 1 => setAll (setBit bits (place i)) place (i + 1) left

/-- Where the probes of a key go in a filter with a number of bytes of bits, a number of probes and
a seed. Where there are bits, each probe goes to one of them. -/
structure Placement where
  position : (bytes probes : Nat) → (seed : Bytes) → (key : String) → (i : Nat) → Nat
  position_lt : ∀ {bytes : Nat}, 0 < bytes → ∀ probes seed key i,
    position bytes probes seed key i < 8 * bytes

/-- Where the probes of a key go in this filter. -/
def place (placement : Placement) (f : Filter) (key : String) : Nat → Nat :=
  placement.position f.bits.size f.probes f.seed key

/-- Whether the key may have been added; not defined for a filter without bits. -/
def containsWith? (placement : Placement) (f : Filter) (key : String) : Option Bool :=
  if f.bits.size = 0 then none else some (allSet f.bits (f.place placement key) 0 f.probes)

def addWith (placement : Placement) (f : Filter) (key : String) : Filter :=
  { f with bits := setAll f.bits (f.place placement key) 0 f.probes }

/-- The largest prime below `2 ^ 64`, the modulus of all probes after the second. -/
def modulus : Nat := 0xffffffffffffffc5

/-- What is hashed for a key: its length in eight bytes, and its bytes. -/
def keyInput (key : String) : Bytes :=
  let bs := Text.bytes key
  Word.little 8 bs.length ++ bs

def hashes (seed : Bytes) (key : String) : UInt64 × UInt64 :=
  (Hash.sip13 (seed.take 16) (keyInput key), Hash.sip13 (seed.drop 16) (keyInput key))

/-- The probe with an index, before it is reduced to the number of bits. -/
def probe (h : UInt64 × UInt64) : Nat → Nat
  | 0 => h.1.toNat
  | 1 => h.2.toNat
  | i => (h.1 + UInt64.ofNat i * h.2).toNat % modulus

def position (bytes : Nat) (h : UInt64 × UInt64) (i : Nat) : Nat :=
  probe h i % (8 * bytes)

theorem position_lt {bytes : Nat} (hbytes : 0 < bytes) (h : UInt64 × UInt64) (i : Nat) :
    position bytes h i < 8 * bytes :=
  Nat.mod_lt _ (Nat.mul_pos (by decide) hbytes)

/-- The placement in use: the two hashes of the key, and then the first plus multiples of the
second. -/
def Placement.hashed : Placement where
  position bytes _ seed key i := Filter.position bytes (hashes seed key) i
  position_lt hbytes _ seed key i := Filter.position_lt hbytes (hashes seed key) i

def contains? (f : Filter) (key : String) : Option Bool :=
  f.containsWith? .hashed key

def add (f : Filter) (key : String) : Filter :=
  f.addWith .hashed key

/-- The natural logarithm of 2. -/
def ln2 : Float := Float.ofBits 0x3fe62e42fefa39ef

/-- The number of bytes of bits for a number of keys and a share of wrong answers. -/
def bytesFor (keys : Nat) (rate : Float) : Nat :=
  (Float.ofNat keys * Float.log rate / (-8.0 * (ln2 * ln2))).ceil.toUInt64.toNat

/-- The number of probes that makes the best use of the bits. -/
def probesFor (bytes keys : Nat) : Nat :=
  max 1 (Float.ofNat (bytes * 8) / Float.ofNat keys * Float.log 2.0).round.toUInt32.toNat

/-- The number of bytes from which on a word of eight bytes does not hold the number of bits. -/
def bytesLimit : Nat := 0x2000000000000000

/-- How many bytes of bits a filter gets for a number of keys and a share of wrong answers, and how
many probes. There is a probe at least, and the number of probes fits its word. -/
structure Sizing where
  bytes : (keys : Nat) → (rate : Float) → Nat
  probes : (bytes keys : Nat) → Nat
  probes_pos : ∀ bytes keys, 0 < probes bytes keys
  probes_lt : ∀ bytes keys, probes bytes keys < Word.limit 4

namespace Sizing

def best : Sizing where
  bytes := bytesFor
  probes := probesFor
  probes_pos _ _ := Nat.lt_of_lt_of_le Nat.zero_lt_one (Nat.le_max_left _ _)
  probes_lt _ _ := Nat.max_lt.mpr ⟨by decide, UInt32.toNat_lt _⟩

end Sizing

/-- A filter with the keys, made for a number of them. The share of wrong answers must lie between 0
and 1, and not ask for more bits than can be counted. -/
def buildWith? (placement : Placement) (sizing : Sizing) (seed : Bytes) (keys : List String)
    (expected : Nat) (rate : Float) : Option Filter :=
  if 0.0 < rate ∧ rate < 1.0 then
    let expected := max expected 1
    let bytes := sizing.bytes expected rate
    if bytes = 0 ∨ bytesLimit ≤ bytes then none
    else
      let blank : Filter := ⟨seed, sizing.probes bytes expected, Array.replicate bytes 0⟩
      some (keys.foldl (addWith placement) blank)
  else none

def build? (seed : Bytes) (keys : List String) (expected : Nat) (rate : Float) : Option Filter :=
  buildWith? .hashed .best seed keys expected rate

def toBytes (f : Filter) : Bytes :=
  version :: Word.little 8 f.bits.size ++ Word.little 4 f.probes ++ f.seed ++ f.bits.toList

def ofBytes (bs : Bytes) : Except FilterFault Filter :=
  if bs.length < headerLen then .error .length
  else if bs.head? ≠ some version then .error .version
  else
    let bytes := Word.ofLittle ((bs.drop 1).take 8)
    let probes := Word.ofLittle ((bs.drop 9).take 4)
    let bits := bs.drop headerLen
    if probes = 0 then .error .probes
    else if bits.length ≠ bytes then .error .length
    else .ok ⟨(bs.drop 13).take 32, probes, bits.toArray⟩

end Filter

/-- What stands in front of the key index. -/
structure Gate where
  filter : Option Filter

namespace Gate

def absent : Gate := ⟨none⟩

def isActive (g : Gate) : Bool := g.filter.isSome

def ofBytes (bs : Bytes) : Except FormatFault Gate :=
  match Filter.ofBytes bs with
  | .ok filter => .ok ⟨some filter⟩
  | .error cause => .error (.filter cause)

/-- Whether the gate lets the key pass; not defined with a filter without bits. -/
def passesWith? (placement : Filter.Placement) (g : Gate) (key : String) : Option Bool :=
  match g.filter with
  | none => some true
  | some filter => filter.containsWith? placement key

def passes? (g : Gate) (key : String) : Option Bool :=
  g.passesWith? .hashed key

end Gate

end SpatialSegment
