import SpatialSegment.RTree.Choice

/-!
# Splitting a full leaf

The two boxes that would waste the least room together become the first members of two groups: the
pair is the first one with the least *gain*, which is the volume of the pair's union without the
volumes of both. The other boxes follow in order, each to the group that grows less by it, of two to
the smaller one, else to the second. Once a group can reach the minimum only with all boxes that are
left, it gets them.

Gains and growths are compared by rank, so every list of boxes is split whatever the arithmetic of
volumes yields.
-/

namespace SpatialSegment

namespace RTree

def gain (a b : Box) : Int :=
  areaRank ((a.union b).volume - a.volume - b.volume)

/-- All pairs of positions, in lexicographic order, with their gains. Positions count from the
number given. -/
def seedPairs (position : Nat) : List Box → List ((Nat × Nat) × Int)
  | [] => []
  | a :: rest =>
    ((rest.zipIdx (position + 1)).map fun b => ((position, b.2), gain a b.1)) ++
      seedPairs (position + 1) rest

/-- The first pair with the least gain. -/
def seeds (boxes : List Box) : Option (Nat × Nat) :=
  (firstLeast (fun p q => p.2 < q.2) (seedPairs 0 boxes)).map Prod.fst

/-- Positions in the order in which they joined, and the box around their boxes. -/
structure Group where
  members : List Nat
  box : Box

def Group.add (g : Group) (position : Nat) (box : Box) : Group :=
  ⟨g.members ++ [position], g.box.union box⟩

/-- Whether the next box goes to the first group, when `left` boxes have no group yet. -/
def toFirst (minFill left : Nat) (first second : Group) (box : Box) : Bool :=
  if first.members.length + left ≤ minFill then true
  else if second.members.length + left ≤ minFill then false
  else
    let a := areaRank (first.box.enlargement box)
    let b := areaRank (second.box.enlargement box)
    if a < b then true
    else if b < a then false
    else first.members.length < second.members.length

def distribute (minFill : Nat) : List (Box × Nat) → Group → Group → Group × Group
  | [], first, second => (first, second)
  | (box, position) :: rest, first, second =>
    if toFirst minFill (rest.length + 1) first second box then
      distribute minFill rest (first.add position box) second
    else distribute minFill rest first (second.add position box)

/-- The positions of the boxes in two groups, where a node may list `max` boxes. -/
def quadraticSplit (boxes : List Box) (max : Nat) : List Nat × List Nat :=
  match seeds boxes with
  | none => (List.range boxes.length, [])
  | some (i, j) =>
    let rest := boxes.zipIdx.filter fun b => b.2 ≠ i ∧ b.2 ≠ j
    let (first, second) := distribute (max / 2) rest
      ⟨[i], boxes.getD i Box.fullSpace⟩ ⟨[j], boxes.getD j Box.fullSpace⟩
    (first.members, second.members)

end RTree

end SpatialSegment
