import SpatialSegment.Coord

/-!
# The binary number nearest to a decimal

The quotient of two natural numbers is rounded to the nearest binary number of 64 bits, a half going
to the even mantissa. Quotients beyond the largest number give infinity, quotients below half of the
smallest one give zero. Since the magnitudes of the numbers are ordered like their codes, a mantissa
that rounds up to the next power of two needs no extra case: it carries into the exponent field.
-/

namespace SpatialSegment

namespace Decimal

/-- The exponent of the last mantissa bit of the quotient, above the smallest one. -/
def lastBit (num den : Nat) : Nat :=
  let top : Int := (Nat.log2 num : Int) - Nat.log2 den
  let fits : Bool :=
    if 0 ≤ top then den * Nat.pow 2 top.toNat ≤ num else den ≤ num * Nat.pow 2 (-top).toNat
  let exponent := if fits then top - 52 else top - 53
  (exponent + 1074).toNat

/-- The magnitude code of the number nearest to `num / den`. -/
def nearest (num den : Nat) : Nat :=
  if num = 0 then 0 else
    let q := lastBit num den
    let num' := num * Nat.pow 2 (1074 - q)
    let den' := den * Nat.pow 2 (q - 1074)
    let floor := num' / den'
    let rest := num' % den'
    let up : Bool := den' < 2 * rest ∨ (2 * rest = den' ∧ floor % 2 = 1)
    let mantissa := if up then floor + 1 else floor
    min (q * Coord.mantissaFrom + mantissa) Coord.infiniteMagnitude

/-- The magnitude code of the number nearest to `digits * 10 ^ scale`. Scales far outside the range
of the numbers are decided by the length of the digits alone. -/
def nearestDecimal (digits : Nat) (scale : Int) : Nat :=
  if digits = 0 then 0 else
    let length : Int := (Nat.toDigits 10 digits).length
    if 310 < length + scale then Coord.infiniteMagnitude
    else if length + scale < -330 then 0
    else if 0 ≤ scale then nearest (digits * Nat.pow 10 scale.toNat) 1
    else nearest digits (Nat.pow 10 (-scale).toNat)

end Decimal

end SpatialSegment
