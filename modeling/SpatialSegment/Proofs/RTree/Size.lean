import Mathlib.Algebra.Order.BigOperators.Group.List
import Mathlib.Algebra.Order.Group.Nat
import SpatialSegment.RTree.Image
import SpatialSegment.Proofs.RTree.Acceptance
import SpatialSegment.Proofs.RTree.Layout

/-!
# How many bytes an index takes

The size of the file follows from the nodes and entries alone, whatever the places of the nodes in
it. A sound index has at most two nodes for each entry and one more, and no box of a node is longer
than those of the entries, so the entries bound the size: what is inserted fits the format if its
offsets do and there are not too many entries.
-/

namespace SpatialSegment

namespace RTree

/-- How many bytes the node takes in the file. -/
def Node.storedSize (max : Nat) (n : Node) : Nat :=
  8 + n.box.storedLen + (n.entries.map fun e => 9 + e.box.storedLen).sum +
    (max - n.entries.length) + 4 * max

/-- How many bytes the index takes. -/
def storedSize (t : RTree) : Nat :=
  rootOffset + (t.nodes.map (Node.storedSize t.maxNodeSize)).sum

/-- The offsets and the size of the index fit the format. -/
def FitsFormat (t : RTree) : Prop :=
  (∀ e ∈ t.entries, e.offset ≤ Word.maxSigned32) ∧ t.storedSize ≤ Word.maxSigned32

section

variable {t : RTree}

theorem storedSize_le_of_mem {n : Node} (hn : n ∈ t.nodes) :
    n.storedSize t.maxNodeSize ≤ t.storedSize := by
  have hle := List.single_le_sum (l := t.nodes.map (Node.storedSize t.maxNodeSize))
    (fun x _ => Nat.zero_le x) _ (List.mem_map_of_mem hn)
  rw [storedSize]
  omega

/-- A bound on the bytes of nodes by the numbers of the nodes and of their entries. -/
theorem sum_storedSize_le {nodes : List Node} {bound : Nat} (max : Nat)
    (boxes : ∀ n ∈ nodes, n.box.storedLen ≤ bound ∧ ∀ e ∈ n.entries, e.box.storedLen ≤ bound) :
    (nodes.map (Node.storedSize max)).sum ≤
      nodes.length * (8 + bound + 5 * max) + (nodes.flatMap Node.entries).length * (9 + bound) := by
  induction nodes with
  | nil => exact Nat.zero_le _
  | cons n nodes ih =>
    obtain ⟨⟨hbox, hentries⟩, boxes⟩ := List.forall_mem_cons.mp boxes
    have hslots : (n.entries.map fun e => 9 + e.box.storedLen).sum ≤
        n.entries.length * (9 + bound) := by
      have hle := List.sum_le_card_nsmul (n.entries.map fun e => 9 + e.box.storedLen) (9 + bound)
        (List.forall_mem_map.mpr fun e he => Nat.add_le_add_left (hentries e he) 9)
      rwa [List.length_map, Nat.nsmul_eq_mul] at hle
    have hrest := ih boxes
    rw [List.map_cons, List.sum_cons, List.flatMap_cons, List.length_append, List.length_cons,
      Nat.add_mul, Nat.add_mul, Node.storedSize]
    omega

/-- A node's box is no longer than that of an entry: it is of the dimension of all entries, or it is
the full space and there are none. -/
theorem Sound.storedLen_box_le (sound : Sound t) {bound : Nat}
    (wide : ∀ e ∈ t.entries, e.box.storedLen ≤ bound) {n : Node} (hn : n ∈ t.nodes) :
    n.box.storedLen ≤ bound := by
  obtain ⟨i, hi⟩ := List.getElem?_of_mem hn
  rcases sound.boxes with hempty | ⟨d, covered⟩
  · rw [hempty] at hn
    rw [List.mem_singleton.mp hn]
    exact Nat.zero_le _
  · obtain ⟨j, m, entries, -, hj, hm⟩ := Arena.exists_descend sound.linked sound.listing
      Box.fullSpace sound.linked.pos
    have hsize := covered.filled.nonempty hj
    rw [Node.size, hm] at hsize
    obtain ⟨e, he⟩ := List.exists_mem_of_length_pos (Nat.pos_of_ne_zero hsize)
    have hmem : e ∈ m.entries := by rwa [Node.entries, hm]
    have hentry := covered.filled.entries hj e hmem
    have hbox := ((covered.tight i (List.getElem?_eq_some_iff.mp hi).1).node hi).1
    have hle := wide e (List.mem_flatMap.mpr ⟨m, List.mem_of_getElem? hj, hmem⟩)
    rw [Box.storedLen] at hle ⊢
    rw [Box.dimension] at hentry hbox
    omega

/-- There are at most two nodes for each entry, and one more. -/
theorem Sound.length_nodes_le (sound : Sound t) : t.nodes.length ≤ 2 * t.length + 1 := by
  have hfew := sound.few
  have hnumbers := sound.numbers
  omega

theorem Sound.storedSize_le (sound : Sound t) {bound : Nat}
    (wide : ∀ e ∈ t.entries, e.box.storedLen ≤ bound) :
    t.storedSize ≤ rootOffset + (2 * t.length + 1) * (8 + bound + 5 * t.maxNodeSize) +
      t.length * (9 + bound) := by
  have hboxes : ∀ n ∈ t.nodes, n.box.storedLen ≤ bound ∧
      ∀ e ∈ n.entries, e.box.storedLen ≤ bound := fun n hn =>
    ⟨sound.storedLen_box_le wide hn, fun e he => wide e (List.mem_flatMap.mpr ⟨n, hn, he⟩)⟩
  have hsum := sum_storedSize_le t.maxNodeSize hboxes
  have hlength : t.length = (t.nodes.flatMap Node.entries).length := sound.counted
  have hnodes := Nat.mul_le_mul_right (8 + bound + 5 * t.maxNodeSize) sound.length_nodes_le
  rw [← hlength] at hsum
  rw [storedSize]
  omega

/-- More entries than a node lists are in more than one node. -/
theorem Sound.one_lt_nodeCount (sound : Sound t) (h : t.maxNodeSize < t.length) :
    1 < t.nodeCount := by
  by_contra hle
  have hpos := sound.linked.pos
  obtain ⟨r, hr⟩ : ∃ r, t.nodes = [r] := List.length_eq_one_iff.mp (by rw [nodeCount] at hle; omega)
  have hsize := sound.bounded (show t.nodes[0]? = some r by rw [hr]; rfl)
  have hlength : t.length = r.entries.length := by
    rw [sound.counted, entries, hr, List.flatMap_singleton]
  have hle := r.length_entries_le
  omega

end

/-- What is inserted into an empty index fits the format if all the entries together do. -/
theorem fitsFormat_foldl_insert {maxNodeSize : Nat} (two_le : 2 ≤ maxNodeSize)
    {entries : List Entry} (bound : Nat) (offsets : ∀ e ∈ entries, e.offset ≤ Word.maxSigned32)
    (wide : ∀ e ∈ entries, e.box.storedLen ≤ bound)
    (room : rootOffset + (2 * entries.length + 1) * (8 + bound + 5 * maxNodeSize) +
      entries.length * (9 + bound) ≤ Word.maxSigned32) :
    FitsFormat (entries.foldl RTree.insert (empty maxNodeSize two_le)) := by
  obtain ⟨sound, hperm⟩ := (sound_empty maxNodeSize two_le).foldl_insert entries
  have hmax : (entries.foldl RTree.insert (empty maxNodeSize two_le)).maxNodeSize = maxNodeSize :=
    maxNodeSize_foldl_insert _ entries
  have hsub : (taken (empty maxNodeSize two_le) entries).Sublist entries := taken_sublist _ _
  have hmem : ∀ e ∈ (entries.foldl RTree.insert (empty maxNodeSize two_le)).entries,
      e ∈ entries := fun e he => hsub.subset (hperm.subset he)
  have hlength : (entries.foldl RTree.insert (empty maxNodeSize two_le)).length ≤
      entries.length := by
    rw [sound.counted, hperm.length_eq]
    exact hsub.length_le
  have hsize := sound.storedSize_le fun e he => wide e (hmem e he)
  have hnodes := Nat.mul_le_mul_right (8 + bound + 5 * maxNodeSize)
    (Nat.succ_le_succ (Nat.mul_le_mul_left 2 hlength))
  have hentries := Nat.mul_le_mul_right (9 + bound) hlength
  rw [hmax] at hsize
  refine ⟨fun e he => offsets e (hmem e he), hsize.trans (le_trans ?_ room)⟩
  exact Nat.add_le_add (Nat.add_le_add_left hnodes _) hentries

/-- Three points of one dimension, one more than a leaf of two entries holds. -/
def threePoints : List Entry :=
  [⟨⟨[⟨⟨0⟩, ⟨0⟩, by decide⟩]⟩, 0⟩,
    ⟨⟨[⟨⟨0x3ff0000000000000⟩, ⟨0x3ff0000000000000⟩, by decide⟩]⟩, 10⟩,
    ⟨⟨[⟨⟨0x4000000000000000⟩, ⟨0x4000000000000000⟩, by decide⟩]⟩, 20⟩]

theorem fitsFormat_threePoints {entries : List Entry} (h : entries <+: threePoints) :
    FitsFormat (entries.foldl RTree.insert (empty 2 (by decide))) := by
  have hall : ∀ e ∈ threePoints, e.offset ≤ Word.maxSigned32 ∧ e.box.storedLen ≤ 16 := by decide
  have hlength : entries.length ≤ 3 := h.length_le
  have hmax : Word.maxSigned32 = 2147483647 := rfl
  have hroot : rootOffset = 14 := rfl
  exact fitsFormat_foldl_insert (by decide) 16 (fun e he => (hall e (h.subset he)).1)
    (fun e he => (hall e (h.subset he)).2) (by omega)

theorem one_lt_nodeCount_threePoints :
    1 < (threePoints.foldl RTree.insert (empty 2 (by decide))).nodeCount := by
  have hempty := holds_empty 2 (by decide)
  have holds := hempty.foldl_insert threePoints
  have halike : alike threePoints = threePoints := by decide
  have hlength := holds.length_eq
  rw [List.nil_append, hempty.sound.taken_eq_alike hempty.dimension, halike] at hlength
  refine holds.sound.one_lt_nodeCount ?_
  rw [hlength, maxNodeSize_foldl_insert]
  decide

end RTree

end SpatialSegment
