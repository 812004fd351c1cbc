import SpatialSegment.Text.Hidden

/-!
# Quoted text

Text between double quotes, on one line: quote, backslash and the common control characters are
written with a backslash, and any other character without a glyph of its own by its code point in
lower-case hexadecimal digits between braces. Single quotes stand for themselves.
-/

namespace SpatialSegment

namespace Text

/-- Lower-case hexadecimal digits, without leading zeros. -/
def hexChars (n : Nat) : List Char :=
  Nat.toDigits 16 n

def quotedChar (c : Char) : List Char :=
  if c = '"' then ['\\', '"']
  else if c = '\\' then ['\\', '\\']
  else if c = '\n' then ['\\', 'n']
  else if c = '\r' then ['\\', 'r']
  else if c = '\t' then ['\\', 't']
  else if c.toNat = 0 then ['\\', '0']
  else if isHidden c then ['\\', 'u', '\x7b'] ++ hexChars c.toNat ++ ['\x7d']
  else [c]

def quoted (s : String) : String :=
  String.ofList ('"' :: s.toList.flatMap quotedChar ++ ['"'])

example : quoted "a\"\\\t" = "\"a\\\"\\\\\\t\"" := by decide +kernel

end Text

end SpatialSegment
