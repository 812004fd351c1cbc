import SpatialSegment.RTree.Split

/-!
# The spatial index

A tree in which a node lists at most `maxNodeSize` entries or nodes. The index takes boxes of one
dimension, that of the first box; the full space has no place in it. A box goes down to a leaf, the
boxes from there up to the root are computed anew, and a leaf that has become too long turns into a
directory of two leaves, which take new places at the end of the arena. The directory keeps the
place of the leaf, and with it the node that lists it; all three nodes take new numbers, the
directory last. Numbers are not bounded here.

A region is answered from the last child to the first; the entries of a leaf come in their order.

Ways through the arena follow positions and have no end where these lead in a circle. Each is the
least fixed point of its step: it gives `none` where it has no end and where a position leads
nowhere, so what says that a way gives a result says that it ends.
-/

namespace SpatialSegment

structure RTree where
  nodes : RTree.Arena
  maxNodeSize : Nat
  nextId : Nat
  length : Nat
  two_le : 2 ≤ maxNodeSize

namespace RTree

def defaultNodeSize : Nat := 64

/-- The position of the root. -/
def rootPosition : Nat := 0

def empty (maxNodeSize : Nat) (two_le : 2 ≤ maxNodeSize) : RTree :=
  ⟨[⟨0, Box.fullSpace, none, .leaf []⟩], maxNodeSize, 1, 0, two_le⟩

def ofMaxNodeSize (maxNodeSize : Nat) : Except ArgumentFault RTree :=
  if h : 2 ≤ maxNodeSize then .ok (empty maxNodeSize h) else .error (.nodeSize maxNodeSize)

/-- The tree of the nodes, with the number and the length that follow from them. -/
def ofNodes (nodes : Arena) (maxNodeSize : Nat) (two_le : 2 ≤ maxNodeSize) : RTree where
  nodes := nodes
  maxNodeSize := maxNodeSize
  nextId := ((nodes.map Node.id).max?.map (· + 1)).getD 0
  length := (nodes.flatMap Node.entries).length
  two_le := two_le

/-- All entries, in the order of the arena. -/
def entries (t : RTree) : List Entry := t.nodes.flatMap Node.entries

def nodeCount (t : RTree) : Nat := t.nodes.length

def box (t : RTree) : Box := t.nodes.boxAt rootPosition

/-- The dimension of the boxes, once there is one. -/
def dimension? (t : RTree) : Option Nat :=
  if t.box.isFullSpace then none else some t.box.dimension

/-! ## Insertion -/

namespace Arena

/-- The boxes from a position up to the root computed anew. -/
def refitUp (a : Arena) (i : Nat) : Option Arena :=
  match a[i]? with
  | none => none
  | some n =>
    match n.parent with
    | none => some (a.refit i)
    | some parent => a.refit i |>.refitUp parent
partial_fixpoint

/-- The leaf at a position replaced by a directory of two leaves that take the places at the end. -/
def divide (a : Arena) (max nextId i : Nat) (entries : List Entry) : Arena :=
  let (first, second) := quadraticSplit (entries.map Entry.box) max
  let directory (n : Node) : Node :=
    { n with id := nextId + 2, items := .directory [a.length, a.length + 1] }
  let leaves :=
    [Node.leafOf nextId (some i) (first.filterMap (entries[·]?)),
      Node.leafOf (nextId + 1) (some i) (second.filterMap (entries[·]?))]
  Arena.refit (a.modify i directory ++ leaves) i

end Arena

/-- A leaf that lists too much is divided. -/
def settle (t : RTree) (i : Nat) : RTree :=
  match t.nodes[i]? with
  | some ⟨_, _, _, .leaf entries⟩ =>
    if entries.length ≤ t.maxNodeSize then t
    else
      { t with
        nodes := t.nodes.divide t.maxNodeSize t.nextId i entries
        nextId := t.nextId + 3 }
  | _ => t

/-- Whether the index takes the entry. -/
def accepts (t : RTree) (e : Entry) : Bool :=
  !e.box.isFullSpace && (t.dimension?.isNone || t.dimension? == some e.box.dimension)

/-- The index with an entry that it takes. -/
def place (t : RTree) (e : Entry) : Option RTree := do
  let i ← t.nodes.descend e.box rootPosition
  let nodes ← Arena.refitUp (t.nodes.modify i (·.push e)) i
  return { t with nodes, length := t.length + 1 }.settle i

/-- The index with an entry, if it takes it. -/
def insert (t : RTree) (e : Entry) : RTree :=
  if t.accepts e then (t.place e).getD t else t

/-- The index with those of the entries that it takes, one after another, and whether these are all.
-/
def insertAll (t : RTree) (entries : List Entry) : RTree × Bool :=
  entries.foldl (fun (t, all) e => (t.insert e, t.accepts e && all)) (t, true)

/-! ## Regions -/

namespace Arena

/-- The entries found so far, and those below the positions of a stack whose boxes touch the region.
-/
def search (a : Arena) (region : Box) (found : List Entry) : List Nat → Option (List Entry)
  | [] => some found
  | i :: stack =>
    match a[i]? with
    | none => none
    | some n =>
      if n.box.intersects region then
        match n.items with
        | .leaf entries =>
          a |>.search region (found ++ entries.filter fun e => e.box.intersects region) stack
        | .directory children =>
          let touching := children.filter fun c => (a.boxAt c).intersects region
          a |>.search region found (touching.reverse ++ stack)
      else a |>.search region found stack
partial_fixpoint

end Arena

/-- The entries of the region behind those already found. -/
def queryAfter (t : RTree) (region : Box) (found : List Entry) : List Entry :=
  (t.nodes.search region found [rootPosition]).getD found

def query (t : RTree) (region : Box) : List Entry := t.queryAfter region []

/-! ## Shape -/

namespace Arena

/-- The greatest depth, of those seen so far and of the nodes below the positions of a stack, each
with its own depth. -/
def deepest (a : Arena) (seen : Nat) : List (Nat × Nat) → Option Nat
  | [] => some seen
  | (i, depth) :: stack =>
    match a[i]? with
    | none => none
    | some n =>
      a |>.deepest (max seen depth) (n.children.reverse.map (fun c => (c, depth + 1)) ++ stack)
partial_fixpoint

/-- Whether the nodes at and below the positions of a stack are as they should be: no list too long,
every box the least one around what its node lists, every child leading back. With `visited` nodes
before them they must be all that there are. -/
def verify (a : Arena) (max visited : Nat) : List Nat → Option Bool
  | [] => some (visited == a.length && (a.parentAt rootPosition).isNone)
  | i :: stack =>
    match a[i]? with
    | none => none
    | some n =>
      if max < n.size || !isLeastAround n.box (a.itemBoxes n) then some false
      else if n.children.all fun c => a.parentAt c == some i then
        a |>.verify max (visited + 1) (n.children.reverse ++ stack)
      else some false
partial_fixpoint

end Arena

/-- The number of nodes on the longest way down. -/
def height (t : RTree) : Nat :=
  (t.nodes.deepest 0 [(rootPosition, 1)]).getD 0

def isConsistent (t : RTree) : Bool :=
  (t.nodes.verify t.maxNodeSize 0 [rootPosition]).getD false

end RTree

end SpatialSegment
