import SpatialSegment.Decimal.Shortest
import SpatialSegment.Decimal.Nearest

/-!
# Text of a coordinate

A number is written with the fewest digits that read back to it. Between `0.0001` and `10 ^ 16` it
is positional and has at least one digit on both sides of the point; outside it is one digit, the
other digits behind a point if there are any, and an exponent without padding or plus sign. Reading
accepts an optional sign, decimal digits with at most one point among or around them, and an
optional exponent; further, in any case, `inf`, `infinity` and `nan`.
-/

namespace SpatialSegment

namespace Decimal

/-- Digits with the point after the first `10 ^ scale` are cut off: at least one digit and one
place. -/
def positional (digits : List Char) (scale : Int) : List Char :=
  if 0 ≤ scale then digits ++ List.replicate scale.toNat '0' ++ ['.', '0']
  else
    let places := (-scale).toNat
    if places < digits.length then
      digits.take (digits.length - places) ++ '.' :: digits.drop (digits.length - places)
    else ['0', '.'] ++ List.replicate (places - digits.length) '0' ++ digits

/-- One digit before the point and the exponent of that digit after the mark. -/
def exponential (digits : List Char) (scale : Int) : List Char :=
  let exponent := (toString (scale + digits.length - 1)).toList
  match digits with
  | [] => []
  | [d] => d :: 'e' :: exponent
  | d :: more => d :: '.' :: more ++ 'e' :: exponent

end Decimal

namespace Coord

/-- The codes of `0.0001` and of `10 ^ 16`, the bounds of the positional form. -/
def positionalFrom : Nat := 0x3f1a36e2eb1c432d

def positionalBelow : Nat := 0x4341c37937e08000

/-- The text of a magnitude that is a number. -/
def magnitudeChars (c : Coord) : List Char :=
  if c.magnitude = 0 then ['0', '.', '0']
  else if c.magnitude = infiniteMagnitude then ['i', 'n', 'f']
  else
    let (m, q) := c.split
    let short := (Decimal.Rounding.around m q).shortest
    let digits := Nat.toDigits 10 short.digits
    if positionalFrom ≤ c.magnitude ∧ c.magnitude < positionalBelow then
      Decimal.positional digits short.scale
    else Decimal.exponential digits short.scale

def chars (c : Coord) : List Char :=
  if c.isNaN then ['N', 'a', 'N']
  else if c.negative then '-' :: c.magnitudeChars
  else c.magnitudeChars

def text (c : Coord) : String :=
  String.ofList c.chars

/-- The coordinate with a sign and a magnitude code. -/
def ofMagnitude (negative : Bool) (magnitude : Nat) : Coord :=
  ⟨UInt64.ofNat (if negative then signBit + magnitude else magnitude)⟩

/-- A code that is not a number. -/
def undefined : Coord :=
  ⟨0x7ff8000000000000⟩

/-- A sign, if there is one, and the rest. -/
def readSign : List Char → Bool × List Char
  | '-' :: cs => (true, cs)
  | '+' :: cs => (false, cs)
  | cs => (false, cs)

/-- The exponent behind its mark: an optional sign and at least one digit. -/
def readExponent : List Char → Option Int
  | [] => some 0
  | mark :: cs =>
    let (negative, digits) := readSign cs
    if (mark = 'e' ∨ mark = 'E') ∧ digits ≠ [] ∧ digits.all Char.isDigit then
      let n : Int := Nat.ofDigitChars 10 digits 0
      some (if negative then -n else n)
    else none

/-- A magnitude code from digits, point and exponent. -/
def readDecimal (cs : List Char) : Option Nat := do
  let whole := cs.takeWhile Char.isDigit
  let rest := cs.dropWhile Char.isDigit
  let (places, rest) :=
    match rest with
    | '.' :: more => (more.takeWhile Char.isDigit, more.dropWhile Char.isDigit)
    | _ => ([], rest)
  if whole = [] ∧ places = [] then none
  let exponent ← readExponent rest
  some (Decimal.nearestDecimal (Nat.ofDigitChars 10 (whole ++ places) 0) (exponent - places.length))

def read? (cs : List Char) : Option Coord :=
  let (negative, rest) := readSign cs
  let word := rest.map Char.toLower
  if word = ['i', 'n', 'f'] ∨ word = ['i', 'n', 'f', 'i', 'n', 'i', 't', 'y'] then
    some (ofMagnitude negative infiniteMagnitude)
  else if word = ['n', 'a', 'n'] then some undefined
  else (readDecimal rest).map (ofMagnitude negative)

example : text ⟨0x3ff0000000000000⟩ = "1.0" := by decide +kernel
example : text ⟨0x8000000000000000⟩ = "-0.0" := by decide +kernel
example : text ⟨0x0000000000000001⟩ = "5e-324" := by decide +kernel
example : text ⟨0x3fb999999999999a⟩ = "0.1" := by decide +kernel
example : text ⟨0x4341c37937e08000⟩ = "1e16" := by decide +kernel

end Coord

end SpatialSegment
