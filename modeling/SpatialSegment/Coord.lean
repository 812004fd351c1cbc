import SpatialSegment.Word

/-!
# Coordinates

A coordinate is a binary floating-point number of 64 bits, kept as its bits. The numeric order is
read off the bits: sign and magnitude give an integer key, so both zeros share one key and
infinities bound all other numbers. Two coordinates are *equal* when their bits are, and *the same
number* when their keys are; a box keeps the bits and compares the numbers. Codes that are not
numbers compare with nothing.

Only `toFloat` leaves the bits for arithmetic; no order law depends on it.
-/

namespace SpatialSegment

structure Coord where
  bits : UInt64
deriving DecidableEq, Repr

namespace Coord

/-- The bits of the exponent field when all of them are set: the first magnitude beyond the numbers
is the one after it. -/
def infiniteMagnitude : Nat := 0x7ff0000000000000

/-- The mantissas of the numbers that are not subnormal start here, in units of their last bit. -/
def mantissaFrom : Nat := 0x10000000000000

def signBit : Nat := 0x8000000000000000

def magnitude (c : Coord) : Nat :=
  c.bits.toNat % signBit

def negative (c : Coord) : Bool :=
  signBit ≤ c.bits.toNat

def isNaN (c : Coord) : Bool :=
  infiniteMagnitude < c.magnitude

/-- The place of a number on the line; both zeros are at 0. -/
def key (c : Coord) : Int :=
  if c.negative then -(c.magnitude : Int) else c.magnitude

/-- Holds of numbers only. -/
instance : LE Coord :=
  ⟨fun a b => a.isNaN = false ∧ b.isNaN = false ∧ a.key ≤ b.key⟩

theorem le_def (a b : Coord) : a ≤ b ↔ a.isNaN = false ∧ b.isNaN = false ∧ a.key ≤ b.key :=
  Iff.rfl

instance (a b : Coord) : Decidable (a ≤ b) :=
  decidable_of_iff _ (le_def a b).symm

/-- The second of two numbers, unless the first is less. -/
def lesser (a b : Coord) : Coord :=
  if a.key < b.key then a else b

/-- The second of two numbers, unless the first is greater. -/
def greater (a b : Coord) : Coord :=
  if b.key < a.key then a else b

/-- Equality as numbers: the zeros are one number. -/
def sameNumber (a b : Coord) : Bool :=
  !a.isNaN && !b.isNaN && a.key == b.key

def toFloat (c : Coord) : Float :=
  Float.ofBits c.bits

def ofFloat (x : Float) : Coord :=
  ⟨x.toBits⟩

theorem le_refl {a : Coord} (h : a.isNaN = false) : a ≤ a :=
  ⟨h, h, Int.le_refl _⟩

theorem le_trans {a b c : Coord} (hab : a ≤ b) (hbc : b ≤ c) : a ≤ c :=
  ⟨hab.1, hbc.2.1, Int.le_trans hab.2.2 hbc.2.2⟩

theorem le_total {a b : Coord} (ha : a.isNaN = false) (hb : b.isNaN = false) : a ≤ b ∨ b ≤ a :=
  (Int.le_total a.key b.key).imp (⟨ha, hb, ·⟩) (⟨hb, ha, ·⟩)

theorem le_lesser_iff {a b c : Coord} (ha : a.isNaN = false) (hb : b.isNaN = false) :
    c ≤ lesser a b ↔ c ≤ a ∧ c ≤ b := by
  simp only [lesser, le_def]
  split <;> grind

theorem greater_le_iff {a b c : Coord} (ha : a.isNaN = false) (hb : b.isNaN = false) :
    greater a b ≤ c ↔ a ≤ c ∧ b ≤ c := by
  simp only [greater, le_def]
  split <;> grind

end Coord

/-- The place of an area in the order used to choose between areas. Results that are not numbers
come first, then the numbers in their order, with the negative zero before the positive one. That
the former come first is an assumption: the standard of floating-point arithmetic leaves their sign
bit open, and the machines that this is about, those of x86-64, set it. -/
def areaRank (x : Float) : Int :=
  let c := Coord.ofFloat x
  if c.isNaN then -(Coord.signBit : Int)
  else if c.negative then -(c.magnitude : Int) - 1
  else c.magnitude

end SpatialSegment
