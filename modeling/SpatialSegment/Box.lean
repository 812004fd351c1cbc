import SpatialSegment.Error

/-!
# Boxes

A box is a list of closed intervals, one per dimension. No interval at all is the *full space*,
which touches and covers everything and is covered by everything. Boxes of different dimensions
neither touch nor cover each other and have no common covering box. The ends of an interval are
numbers, in order; that is part of the type, so every box is valid.

The bits of the ends are kept: joining boxes selects ends and never computes one.
-/

namespace SpatialSegment

structure Interval where
  lo : Coord
  hi : Coord
  lo_le_hi : lo ≤ hi
deriving DecidableEq

namespace Interval

theorem lo_isNaN (i : Interval) : i.lo.isNaN = false := i.lo_le_hi.1

theorem hi_isNaN (i : Interval) : i.hi.isNaN = false := i.lo_le_hi.2.1

def touches (a b : Interval) : Bool :=
  a.lo ≤ b.hi ∧ b.lo ≤ a.hi

def covers (a b : Interval) : Bool :=
  a.lo ≤ b.lo ∧ b.hi ≤ a.hi

/-- The least interval around both; of two ends that are the same number the second is taken. -/
def join (a b : Interval) : Interval where
  lo := Coord.lesser a.lo b.lo
  hi := Coord.greater a.hi b.hi
  lo_le_hi := by
    have ha := a.lo_le_hi
    have hb := b.lo_le_hi
    simp only [Coord.le_def] at ha hb ⊢
    unfold Coord.lesser Coord.greater
    split <;> split <;> grind

def sameNumbers (a b : Interval) : Bool :=
  a.lo.sameNumber b.lo && a.hi.sameNumber b.hi

end Interval

structure Box where
  intervals : List Interval
deriving DecidableEq

namespace Box

def fullSpace : Box := ⟨[]⟩

instance : Inhabited Box := ⟨fullSpace⟩

def isFullSpace (b : Box) : Bool := b.intervals.isEmpty

def dimension (b : Box) : Nat := b.intervals.length

/-- Low and high end of every dimension in turn. -/
def coords (b : Box) : List Coord :=
  b.intervals.flatMap fun i => [i.lo, i.hi]

/-- Pairs the ends up; the dimension counts from the one given. -/
def pairUp (dimension : Nat) : List Coord → Except ArgumentFault (List Interval)
  | lo :: hi :: rest =>
    if h : lo ≤ hi then (pairUp (dimension + 1) rest).map (⟨lo, hi, h⟩ :: ·)
    else .error (.invalidInterval lo hi dimension)
  | _ => .ok []

/-- The box with the given ends, if there are two numbers in order for every dimension. -/
def ofCoords (cs : List Coord) : Except ArgumentFault Box :=
  if cs.length % 2 ≠ 0 then .error (.oddCoordinates cs.length)
  else (pairUp 0 cs).map Box.mk

def ofIntervals (is : List (Coord × Coord)) : Except ArgumentFault Box :=
  ofCoords (is.flatMap fun i => [i.1, i.2])

/-- The box that holds one point. -/
def ofPoint (cs : List Coord) : Except ArgumentFault Box :=
  ofCoords (cs.flatMap fun c => [c, c])

/-- The ends of one dimension; there is none beyond the last. -/
def interval? (b : Box) (dimension : Nat) : Option Interval :=
  b.intervals[dimension]?

def intersects (a b : Box) : Bool :=
  a.isFullSpace || b.isFullSpace ||
    (a.dimension == b.dimension && (a.intervals.zip b.intervals).all fun p => p.1.touches p.2)

def covers (a b : Box) : Bool :=
  a.isFullSpace || b.isFullSpace ||
    (a.dimension == b.dimension && (a.intervals.zip b.intervals).all fun p => p.1.covers p.2)

/-- The dimensions that both boxes have, joined; the full space adds nothing. -/
def union (a b : Box) : Box :=
  if a.isFullSpace then b
  else if b.isFullSpace then a
  else ⟨List.zipWith Interval.join a.intervals b.intervals⟩

def unionAll (boxes : List Box) : Box :=
  boxes.foldl union fullSpace

/-- The least box around both, if they have one. -/
def merge (a b : Box) : Except ArgumentFault Box :=
  if !a.isFullSpace && !b.isFullSpace && a.dimension != b.dimension then
    .error (.mixedDimensions a.dimension b.dimension)
  else .ok (a.union b)

/-- The least box around all boxes of the list, if they have one. -/
def covering (boxes : List Box) : Except ArgumentFault Box :=
  boxes.foldlM merge fullSpace

def sameNumbers (a b : Box) : Bool :=
  a.dimension == b.dimension &&
    (a.intervals.zip b.intervals).all fun p => p.1.sameNumbers p.2

/-- The product of the extents; nothing for the full space. -/
def volume (b : Box) : Float :=
  if b.isFullSpace then 0.0
  else b.intervals.foldl (fun product i => product * (i.hi.toFloat - i.lo.toFloat)) 1.0

/-- By how much the volume of the first box grows when it has to cover the second; infinite if no
box covers both. -/
def enlargement (a b : Box) : Float :=
  if a.isFullSpace || b.isFullSpace || a.covers b then 0.0
  else
    match a.merge b with
    | .ok around => around.volume - a.volume
    | .error _ => Float.ofBits 0x7ff0000000000000

end Box

end SpatialSegment
