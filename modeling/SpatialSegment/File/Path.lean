import SpatialSegment.Text.Split

/-!
# Paths

A path is its text. Read from left to right it is a list of steps, one for each part between
slashes: a single dot stays, two dots go up, any other part goes into what has this name, and empty
parts are no steps. A path with a slash in front starts at the root; one with a slash at the end
asks for a directory.
-/

namespace SpatialSegment

structure Path where
  text : String
deriving DecidableEq, Repr

/-- Where a part of a path leads from a directory. -/
inductive PathStep where
  | stay
  | up
  | into (name : String)
deriving DecidableEq, Repr

namespace Path

/-- A path below another one: one slash between them, none after an empty text. -/
def join (base : Path) (part : String) : Path :=
  if base.text = "" ∨ base.text.toList.getLast? = some '/' then ⟨base.text ++ part⟩
  else ⟨base.text ++ "/" ++ part⟩

def startsAtRoot (p : Path) : Bool :=
  p.text.toList.head? = some '/'

def endsInSlash (p : Path) : Bool :=
  p.text.toList.getLast? = some '/'

/-- The step of a part between slashes. -/
def step? : List Char → Option PathStep
  | [] => none
  | ['.'] => some .stay
  | ['.', '.'] => some .up
  | name => some (.into (String.ofList name))

def steps (p : Path) : List PathStep :=
  (Text.splitOn '/' p.text.toList).filterMap step?

example : (join ⟨"db"⟩ "data").text = "db/data" := by decide
example : (join ⟨"db/"⟩ "data").steps = [.into "db", .into "data"] := by decide +kernel
example : steps ⟨"db/.//../x"⟩ = [.into "db", .stay, .up, .into "x"] := by decide +kernel

end Path

end SpatialSegment
