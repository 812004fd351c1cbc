/-!
# Deletion when the last user leaves

Users of a segment are counted. Once deletion is asked for, no new user comes, and the segment is
deleted when there is none left, at once if there is none. Each function here is one step that other
calls cannot divide; leaving is two of them, the count first and the look at deletion second.
-/

namespace SpatialSegment

structure Usage where
  users : Nat
  deleteAsked : Bool
  deleted : Bool
deriving DecidableEq, Repr

namespace Usage

def none : Usage := ⟨0, false, false⟩

/-- One user more, unless deletion is asked for. -/
def acquire? (u : Usage) : Option Usage :=
  if u.deleteAsked then Option.none else some { u with users := u.users + 1 }

/-- One user less, if there is one. -/
def leave? (u : Usage) : Option Usage :=
  if u.users = 0 then Option.none else some { u with users := u.users - 1 }

def askDeletion (u : Usage) : Usage :=
  { u with deleteAsked := true }

/-- Takes on the deletion when it is due; only one call ever does. -/
def claimDeletion? (u : Usage) : Option Usage :=
  if !u.deleteAsked || 0 < u.users || u.deleted then Option.none
  else some { u with deleted := true }

/-- Asked for and not yet taken on. -/
def isPending (u : Usage) : Bool := u.deleteAsked && !u.deleted

end Usage

end SpatialSegment
