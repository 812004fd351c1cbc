import SpatialSegment.Coord

/-!
# Shortest decimal form of a binary number

A positive finite number is `m * 2 ^ q`. The reals that round to it form an interval around it, ends
included exactly when `m` is even. Among the decimal grids `10 ^ p` the coarsest one with a point in
that interval has the fewest digits; of the two points of that grid next to the number the nearer
one is taken, and of two equally near ones the upper. All comparisons are between natural numbers:
both sides are scaled by `den`, the power of two that clears the fraction of a quarter unit.
-/

namespace SpatialSegment

namespace Coord

/-- The weight of the last mantissa bit is `2 ^ (q - 1074)` for the `q` given here, and `q = 0` for
both the subnormal numbers and the first normal ones. -/
def split (c : Coord) : Nat × Nat :=
  let fraction := c.magnitude % mantissaFrom
  let exponent := c.magnitude / mantissaFrom
  if exponent = 0 then (fraction, 0) else (fraction + mantissaFrom, exponent - 1)

end Coord

namespace Decimal

/-- A number `digits * 10 ^ scale`. -/
structure ScaledDigits where
  digits : Nat
  scale : Int
deriving DecidableEq, Repr

/-- The interval of reals that round to one number, in quarters of its last mantissa bit: every
bound is to be read over the common denominator `den`. -/
structure Rounding where
  low : Nat
  value : Nat
  high : Nat
  den : Nat
  closed : Bool

/-- Half a unit on both sides, except that the gap below a power of two is half as wide. -/
def Rounding.around (m q : Nat) : Rounding :=
  let scale := Nat.pow 2 (q - 1076)
  let den := Nat.pow 2 (1076 - q)
  let below := if m = Coord.mantissaFrom ∧ 0 < q then 1 else 2
  { low := (4 * m - below) * scale
    value := 4 * m * scale
    high := (4 * m + 2) * scale
    den := den
    closed := m % 2 = 0 }

/-- The point of the grid `10 ^ p` inside the interval that is nearest to the number. -/
def Rounding.nearestOn (r : Rounding) (p : Int) : Option Nat :=
  let unit := r.den * Nat.pow 10 p.toNat
  let zoom := Nat.pow 10 (-p).toNat
  let inside (d : Nat) : Bool :=
    let x := d * unit
    let low := r.low * zoom
    let high := r.high * zoom
    if r.closed then low ≤ x ∧ x ≤ high else low < x ∧ x < high
  let down := r.value * zoom / unit
  let up := down + 1
  match inside down, inside up with
  | false, false => none
  | true, false => some down
  | false, true => some up
  | true, true =>
    if r.value * zoom - down * unit < up * unit - r.value * zoom then some down else some up

/-- One more than the exponent of the coarsest grid that can have a point in the interval. -/
def Rounding.reach (r : Rounding) : Nat :=
  (Nat.toDigits 10 (r.high / r.den)).length

/-- The shortest decimal that lies in the interval. -/
def Rounding.shortest (r : Rounding) : ScaledDigits :=
  let found := (List.range (r.reach + 345)).findSome? fun (i : Nat) =>
    let p := (r.reach : Int) - i
    match r.nearestOn p with
    | some (d + 1) => some ⟨d + 1, p⟩
    | _ => none
  found.getD ⟨0, 0⟩

end Decimal

end SpatialSegment
