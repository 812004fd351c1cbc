/-!
# Texts with separators and numerals

Splitting a text at a separator, joining pieces with one between them, and the numerals of words of
64 bits. A numeral is read with an optional plus sign and any number of leading zeros; numbers that
need more than 64 bits have none.
-/

namespace SpatialSegment

namespace Text

/-- The parts of a text between separators; always one more than there are separators. -/
def splitOn (separator : Char) : List Char → List (List Char)
  | [] => [[]]
  | c :: cs =>
    if c = separator then [] :: splitOn separator cs
    else
      match splitOn separator cs with
      | part :: parts => (c :: part) :: parts
      | [] => [[c]]

/-- The pieces with a separator between them. -/
def separated (separator : Char) : List (List Char) → List Char
  | [] => []
  | [piece] => piece
  | piece :: more => piece ++ separator :: separated separator more

/-- The rest behind a beginning, if the text begins like that. -/
def behind? : (beginning cs : List Char) → Option (List Char)
  | [], cs => some cs
  | b :: beginning, c :: cs => if b = c then behind? beginning cs else none
  | _ :: _, [] => none

/-- The rest before an ending, if the text ends like that. -/
def before? (ending cs : List Char) : Option (List Char) :=
  (behind? ending.reverse cs.reverse).map List.reverse

/-- The digits behind an optional plus sign. -/
def unsignedDigits : List Char → List Char
  | '+' :: cs => cs
  | cs => cs

def readUInt64? (cs : List Char) : Option UInt64 :=
  let digits := unsignedDigits cs
  if digits ≠ [] ∧ digits.all Char.isDigit then
    let n := Nat.ofDigitChars 10 digits 0
    if n < 18446744073709551616 then some (UInt64.ofNat n) else none
  else none

/-- The decimal digits of a word. -/
def uint64Chars (n : UInt64) : List Char :=
  Nat.toDigits 10 n.toNat

def uint64Text (n : UInt64) : String :=
  String.ofList (uint64Chars n)

example : splitOn ',' ['a', ',', ',', 'b'] = [['a'], [], ['b']] := by decide
example : readUInt64? ['+', '0', '7'] = some 7 := by decide +kernel
example : readUInt64? ['-', '7'] = none := by decide +kernel

end Text

end SpatialSegment
