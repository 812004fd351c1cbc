import SpatialSegment.RTree.Image

/-!
# Reading the spatial index

The nodes are read into an arena in breadth-first order: the root behind the node size, and every
other node at the offset that its parent names. A node is listed by its parent as soon as it has
been read. No two children may be at one offset, and none at that of the root, so that reading ends
on every file. A node that lists entries has no children.

Only the bytes that the offsets lead to are read. Every fault is one of the format.
-/

namespace SpatialSegment

namespace RTree

/-- A signed word of four bytes, and the rest. -/
def readWord (rest : Bytes) : Except FormatFault (Int × Bytes) :=
  match Bytes.split? 4 rest with
  | some (word, rest) => .ok (Word.signed 4 (Word.ofBig word), rest)
  | none => .error .shortSpatialIndex

/-- A box behind its length, and the rest. -/
def readBox (rest : Bytes) : Except FormatFault (Box × Bytes) := do
  let (length, rest) ← readWord rest
  if length < 0 then throw (.negativeLength "bounding box" length)
  match Bytes.split? length.toNat rest with
  | none => throw .shortBox
  | some (bytes, rest) => return (← Box.ofBytes bytes, rest)

/-- An entry, and the rest. -/
def readEntry (rest : Bytes) : Except FormatFault (Entry × Bytes) := do
  let (offset, rest) ← readWord rest
  if offset < 0 then throw (.entryOffset offset)
  let (box, rest) ← readBox rest
  return (⟨box, offset.toNat⟩, rest)

/-- The entries in a number of slots of a node. -/
def readSlots (id : Nat) : (slots : Nat) → Bytes → Except FormatFault (List Entry × Bytes)
  | 0, rest => .ok ([], rest)
  | _ + 1, [] => .error .shortSpatialIndex
  | slots + 1, marker :: rest =>
    if marker = entryMarker then do
      let (entry, rest) ← readEntry rest
      let (entries, rest) ← readSlots id slots rest
      return (entry :: entries, rest)
    else if marker = absentMarker then readSlots id slots rest
    else .error (.entryMarker marker id)

/-- The offsets in a number of words for children of a node. -/
def readChildren (id : Nat) : (words : Nat) → Bytes → Except FormatFault (List Nat × Bytes)
  | 0, rest => .ok ([], rest)
  | words + 1, rest => do
    let (offset, rest) ← readWord rest
    if offset = -1 then readChildren id words rest
    else if offset < 0 then throw (.childOffset offset id)
    else
      let (offsets, rest) ← readChildren id words rest
      return (offset.toNat :: offsets, rest)

/-- A node as it is stored: its children are offsets. -/
structure StoredNode where
  id : Nat
  box : Box
  entries : List Entry
  children : List Nat

def readNode (max : Nat) (rest : Bytes) : Except FormatFault StoredNode := do
  let (id, rest) ← readWord rest
  if id < 0 then throw (.nodeId id)
  let id := id.toNat
  let (box, rest) ← readBox rest
  let (entries, rest) ← readSlots id max rest
  let (children, _) ← readChildren id max rest
  if children ≠ [] ∧ entries ≠ [] then throw (.entriesAndChildren id)
  return { id, box, entries, children }

/-- The node as it stands in the arena before any of its children has been read. -/
def StoredNode.node (n : StoredNode) (parent : Option Nat) : Node :=
  ⟨n.id, n.box, parent, if n.children.isEmpty then .leaf n.entries else .directory []⟩

/-- A directory lists one position more. -/
def Node.list (n : Node) (child : Nat) : Node :=
  match n.items with
  | .leaf _ => n
  | .directory children => { n with items := .directory (children ++ [child]) }

/-- The offsets of a file at which no node has been read yet. -/
def unvisited (file : Bytes) (visited : List Nat) : List Nat :=
  (List.range file.length).filter (· ∉ visited)

theorem offset_lt_of_readNode {file : Bytes} {max offset : Nat} {n : StoredNode}
    (h : readNode max (file.drop offset) = .ok n) : offset < file.length := by
  apply Nat.lt_of_not_le
  intro hle
  rw [List.drop_eq_nil_of_le hle] at h
  cases h

theorem length_unvisited_cons_lt {file : Bytes} {visited : List Nat} {offset : Nat}
    (fresh : offset ∉ visited) (inside : offset < file.length) :
    (unvisited file (offset :: visited)).length < (unvisited file visited).length := by
  have h : unvisited file (offset :: visited) = (unvisited file visited).filter (· ≠ offset) := by
    simp only [unvisited, List.filter_filter]
    congr 1
    funext other
    simp
  rw [h, List.length_filter_lt_length_iff_exists]
  exact ⟨offset, by simp [unvisited, fresh, inside], by simp⟩

/-- Reads the nodes that a queue of parents and offsets leads to. -/
def gather (file : Bytes) (max : Nat) (queue : List (Nat × Nat)) (visited : List Nat)
    (a : Arena) : Except FormatFault Arena :=
  match queue with
  | [] => .ok a
  | (parent, offset) :: queue =>
    if _fresh : offset ∈ visited then .error (.sharedNode offset)
    else
      match _h : readNode max (file.drop offset) with
      | .error cause => .error cause
      | .ok n =>
        gather file max (queue ++ n.children.map (a.length, ·)) (offset :: visited)
          ((a ++ [n.node (some parent)]).modify parent (·.list a.length))
termination_by (unvisited file visited).length
decreasing_by exact length_unvisited_cons_lt _fresh (offset_lt_of_readNode _h)

/-- The node size, and all nodes. -/
def readNodes (file : Bytes) : Except FormatFault (Nat × Arena) := do
  match Bytes.split? FileFormat.bodyStart file with
  | none => throw .shortSpatialIndex
  | some (magic, rest) =>
    if magic ≠ FileFormat.spatialIndex.magic then throw .spatialPreamble
    let (size, rest) ← readWord rest
    if size < 2 then throw (.nodeSize size)
    let max := size.toNat
    let root ← readNode max rest
    let nodes ← gather file max (root.children.map (rootPosition, ·)) [rootOffset]
      [root.node none]
    return (max, nodes)

/-- The index that the bytes describe. -/
def ofBytes (file : Bytes) : Except FormatFault RTree := do
  let (max, nodes) ← readNodes file
  if h : 2 ≤ max then return ofNodes nodes max h else throw (.nodeSize max)

end RTree

end SpatialSegment
