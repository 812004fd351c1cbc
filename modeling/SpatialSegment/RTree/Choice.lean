import SpatialSegment.RTree.Node

/-!
# First least element, and the way down the tree

A new box goes to the child whose box grows least by it, of two such children to the one that lists
less, and of two such to the first. Growth is compared by its rank, so the choice is defined
whatever the arithmetic of volumes yields.
-/

namespace SpatialSegment

/-- The first element that no element of the list goes before. -/
def firstLeast {α : Type} (before : α → α → Bool) : List α → Option α
  | [] => none
  | a :: rest => some (rest.foldl (fun best x => if before x best then x else best) a)

namespace RTree

/-- What the choice between children compares, and the position of the child. -/
structure Cost where
  growth : Int
  size : Nat
  position : Nat

def Cost.before (a b : Cost) : Bool :=
  a.growth < b.growth || (a.growth == b.growth && a.size < b.size)

namespace Arena

def cost (a : Arena) (target : Box) (i : Nat) : Cost :=
  ⟨areaRank ((a.boxAt i).enlargement target), a.sizeAt i, i⟩

/-- The child that the box goes to. -/
def cheapest (a : Arena) (target : Box) (children : List Nat) : Option Nat :=
  (firstLeast Cost.before (children.map (a.cost target))).map Cost.position

/-- The node that takes the box, from a position down. -/
def descend (a : Arena) (target : Box) (i : Nat) : Option Nat :=
  match a[i]? with
  | none => none
  | some n =>
    match a.cheapest target n.children with
    | none => some i
    | some child => a |>.descend target child
partial_fixpoint

end Arena

end RTree

end SpatialSegment
