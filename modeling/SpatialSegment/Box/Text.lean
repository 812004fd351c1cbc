import SpatialSegment.Box
import SpatialSegment.Text.Blank
import SpatialSegment.Text.Split

/-!
# Text of a box

`[[0.0,1.0]:[2.0,3.5]]`: the intervals in brackets, ends separated by a comma, dimensions by a
colon, and brackets around all. `[]` is the full space. Reading allows blanks around the whole text
and around each end, nowhere else.
-/

namespace SpatialSegment

namespace Box

def intervalChars (i : Interval) : List Char :=
  '[' :: i.lo.chars ++ ',' :: i.hi.chars ++ [']']

def chars (b : Box) : List Char :=
  '[' :: Text.separated ':' (b.intervals.map intervalChars) ++ [']']

def text (b : Box) : String :=
  String.ofList b.chars

/-- What stands between an opening bracket at the start and a closing one at the end. -/
def inBrackets? : List Char → Option (List Char)
  | '[' :: rest => if rest.getLast? = some ']' then some rest.dropLast else none
  | _ => none

/-- The parts before and behind the first comma. -/
def atComma? (cs : List Char) : Option (List Char × List Char) :=
  match cs.dropWhile (· ≠ ',') with
  | _ :: behind => some (cs.takeWhile (· ≠ ','), behind)
  | [] => none

/-- The two ends of one interval. -/
def readEnds (cs : List Char) : Option (List Coord) := do
  let inner ← inBrackets? cs
  let (lo, hi) ← atComma? inner
  let lo ← Coord.read? (Text.trim lo)
  let hi ← Coord.read? (Text.trim hi)
  some [lo, hi]

/-- All ends, if the text has the form of a box. -/
def readCoords (cs : List Char) : Option (List Coord) := do
  let inner ← inBrackets? (Text.trim cs)
  if inner = [] then some []
  else
    let ends ← (Text.splitOn ':' inner).mapM readEnds
    some ends.flatten

def ofText (s : String) : Except ArgumentFault Box :=
  match readCoords s.toList with
  | some cs => ofCoords cs
  | none => .error (.boxText s)

end Box

end SpatialSegment
