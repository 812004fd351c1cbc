import SpatialSegment.Box

/-!
# Nodes of the spatial index

The nodes of the index lie in an arena and are known by their positions in it. A leaf lists entries,
a directory lists positions; both know a box, a number, and the position of the node that lists
them. The first node is the root. Nothing here says that the positions lead anywhere or back: that
is for the operations that make an arena to see to.

A position without a node counts as an empty node with the full space.
-/

namespace SpatialSegment

/-- A box of the log and the offset of the record it belongs to. -/
structure Entry where
  box : Box
  offset : Nat
deriving DecidableEq

namespace RTree

/-- What a node lists. -/
inductive Items where
  | leaf (entries : List Entry)
  | directory (children : List Nat)
deriving DecidableEq

structure Node where
  id : Nat
  box : Box
  parent : Option Nat
  items : Items
deriving DecidableEq

namespace Node

def entries (n : Node) : List Entry :=
  match n.items with
  | .leaf entries => entries
  | .directory _ => []

def children (n : Node) : List Nat :=
  match n.items with
  | .leaf _ => []
  | .directory children => children

/-- How many entries or nodes this one lists. -/
def size (n : Node) : Nat :=
  match n.items with
  | .leaf entries => entries.length
  | .directory children => children.length

/-- A leaf around the entries. -/
def leafOf (id : Nat) (parent : Option Nat) (entries : List Entry) : Node :=
  ⟨id, Box.unionAll (entries.map Entry.box), parent, .leaf entries⟩

/-- One entry more at the end. A directory that lists nothing becomes a leaf. -/
def push (n : Node) (e : Entry) : Node :=
  match n.items with
  | .leaf entries => { n with items := .leaf (entries ++ [e]) }
  | .directory _ => { n with items := .leaf [e] }

end Node

abbrev Arena := List Node

namespace Arena

def boxAt (a : Arena) (i : Nat) : Box :=
  (a[i]?.map Node.box).getD Box.fullSpace

def sizeAt (a : Arena) (i : Nat) : Nat :=
  (a[i]?.map Node.size).getD 0

def parentAt (a : Arena) (i : Nat) : Option Nat :=
  a[i]?.bind Node.parent

/-- The boxes of what a node lists. -/
def itemBoxes (a : Arena) (n : Node) : List Box :=
  match n.items with
  | .leaf entries => entries.map Entry.box
  | .directory children => children.map a.boxAt

/-- The box at a position computed anew from the boxes of what the node lists. -/
def refit (a : Arena) (i : Nat) : Arena :=
  a.modify i fun n => { n with box := Box.unionAll (a.itemBoxes n) }

end Arena

/-- Whether a box is, as numbers, the least one around the boxes. -/
def isLeastAround (box : Box) (boxes : List Box) : Bool :=
  match Box.covering boxes with
  | .ok least => least.sameNumbers box
  | .error _ => false

end RTree

end SpatialSegment
