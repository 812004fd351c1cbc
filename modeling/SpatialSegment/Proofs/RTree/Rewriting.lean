import Mathlib.Data.List.Dedup
import SpatialSegment.Proofs.RTree.InOrder
import SpatialSegment.Proofs.RTree.Mirrored
import SpatialSegment.Proofs.RTree.RoundTrip

/-!
# What has been read is written again

An index that has been read lies in level order, so it is written node by node as it stands. The
second pass looks children up by their numbers, though, and nothing in a file keeps two nodes from
sharing one: then the word of a child leads to the last node with its number. So what has been read
from a file is written so that it is read again exactly if no two nodes below the root share a
number. Otherwise some node is named by no word, and what is read has fewer nodes or nothing is
read.
-/

namespace SpatialSegment

namespace RTree

/-! ## Places by number -/

section

variable {max : Nat}

theorem exists_of_mem_placesFrom {nodes : List Node} {start id offset : Nat}
    (h : (id, offset) ∈ placesFrom max start nodes) : ∃ (k : Nat) (n : Node),
      nodes[k]? = some n ∧ n.id = id ∧
        offset = start + ((nodes.take k).map (Node.storedLen max)).sum := by
  induction nodes generalizing start with
  | nil => cases h
  | cons n nodes ih =>
    rcases List.mem_cons.mp h with hfirst | hlater
    · cases hfirst
      exact ⟨0, n, rfl, rfl, rfl⟩
    · obtain ⟨k, m, hk, hid, hoffset⟩ := ih hlater
      refine ⟨k + 1, m, hk, hid, ?_⟩
      rw [hoffset, List.take_succ_cons, List.map_cons, List.sum_cons, Nat.add_assoc]

/-- Where the second pass finds a number. -/
def Arena.placeOf (a : Arena) (max id : Nat) : Nat :=
  ((placesFrom max rootOffset a).reverse.lookup id).getD 0

variable {a : Arena} {id : Nat}

/-- A number is found at a node that has it. -/
theorem Arena.exists_lookup (max : Nat) (h : id ∈ a.map Node.id) :
    ∃ k < a.length, (placesFrom max rootOffset a).reverse.lookup id = some (a.offset max k) := by
  have hkeys : id ∈ (placesFrom max rootOffset a).reverse.map Prod.fst := by
    rwa [List.map_reverse, map_fst_placesFrom, List.mem_reverse]
  obtain ⟨⟨id', offset⟩, hmem, rfl⟩ := List.mem_map.mp hkeys
  cases hlookup : (placesFrom max rootOffset a).reverse.lookup id' with
  | none =>
    have hnone := List.lookup_eq_none_iff.mp hlookup _ hmem
    simp at hnone
  | some place =>
    obtain ⟨before, after, hsplit, -⟩ := List.lookup_eq_some_iff.mp hlookup
    have hplace : (id', place) ∈ placesFrom max rootOffset a := by
      rw [← List.mem_reverse, hsplit]
      simp
    obtain ⟨k, n, hk, -, rfl⟩ := exists_of_mem_placesFrom hplace
    exact ⟨k, (List.getElem?_eq_some_iff.mp hk).1, rfl⟩

theorem Arena.exists_placeOf (max : Nat) (h : id ∈ a.map Node.id) :
    ∃ k < a.length, a.placeOf max id = a.offset max k := by
  obtain ⟨k, hk, hlookup⟩ := a.exists_lookup max h
  exact ⟨k, hk, by rw [placeOf, hlookup, Option.getD_some]⟩

/-- Below the root each number is found at its node if none of them is shared. -/
theorem Arena.placeOf_eq (distinct : (a.tail.map Node.id).Nodup) {c : Nat} {n : Node}
    (hc : a[c + 1]? = some n) : a.placeOf max n.id = a.offset max (c + 1) := by
  cases a with
  | nil => cases hc
  | cons r rest =>
    have hrest : rest[c]? = some n := hc
    have hmem := mem_placesFrom hrest max (rootOffset + r.storedLen max)
    have hnodup :
        ((placesFrom max (rootOffset + r.storedLen max) rest).reverse.map Prod.fst).Nodup := by
      rwa [List.map_reverse, List.nodup_reverse, map_fst_placesFrom]
    rw [placeOf, placesFrom, List.reverse_cons, List.lookup_append,
      lookup_of_mem hnodup (List.mem_reverse.mpr hmem)]
    change rootOffset + r.storedLen max + _ = rootOffset + _
    rw [List.take_succ_cons, List.map_cons, List.sum_cons, Nat.add_assoc]

end

/-! ## What is written -/

/-- Where the second pass finds the node at a position. -/
def found (t : RTree) (c : Nat) : Nat :=
  t.nodes.placeOf t.maxNodeSize (t.nodes.idAt c)

section

variable {t : RTree}

theorem offset_le_of_size (size : t.storedSize ≤ Word.maxSigned32) (k : Nat) :
    t.nodes.offset t.maxNodeSize k ≤ Word.maxSigned32 := by
  have hle := t.nodes.offset_le t.maxNodeSize k
  rw [Node.storedLen_eq] at hle
  exact hle.trans size

namespace InOrder

theorem fitting (inOrder : InOrder t) (size : t.storedSize ≤ Word.maxSigned32) :
    Arena.Fitting t.nodes t.maxNodeSize := by
  refine ⟨inOrder.bounded, inOrder.listing, inOrder.ids, fun {i n} hi => ?_⟩
  have hn := storedSize_le_of_mem (List.mem_of_getElem? hi)
  exact (Node.fits_of_size (hn.trans size) (inOrder.offsets hi)).2

theorem storedNodes_eq (inOrder : InOrder t) : t.storedNodes = t.nodes := by
  change (t.nodes.levelOrder t.maxNodeSize).filterMap (t.nodes[·]?) = t.nodes
  rw [inOrder.ordered.levelOrder_eq inOrder.bounded, filterMap_getElem?_range]

/-- A child has the number of a node below the root. -/
theorem idAt_child (inOrder : InOrder t) {n : Node} (hn : n ∈ t.nodes) {c : Nat}
    (hc : c ∈ n.children) : t.nodes.idAt c ∈ t.nodes.tail.map Node.id := by
  obtain ⟨i, hi⟩ := List.getElem?_of_mem hn
  obtain ⟨hic, hlt⟩ := inOrder.ordered.linked.child_lt hi hc
  have hget : t.nodes[c]? = some t.nodes[c] := List.getElem?_eq_getElem hlt
  have htail : t.nodes.tail[c - 1]? = some t.nodes[c] := by
    rw [List.getElem?_tail, Nat.sub_add_cancel (by omega)]
    exact hget
  rw [Arena.idAt, hget]
  exact List.mem_map_of_mem (List.mem_of_getElem? htail)

theorem found_le (inOrder : InOrder t) (size : t.storedSize ≤ Word.maxSigned32) :
    ∀ n ∈ t.nodes, ∀ c ∈ n.children, t.found c ≤ Word.maxSigned32 := by
  intro n hn c hc
  have hid := List.map_subset Node.id (List.tail_sublist t.nodes).subset (inOrder.idAt_child hn hc)
  obtain ⟨k, -, hplace⟩ := t.nodes.exists_placeOf t.maxNodeSize hid
  rw [found, hplace]
  exact offset_le_of_size size k

/-- The nodes are written as they stand, and each word leads to where the number of the child has
been found. -/
theorem image_eq (inOrder : InOrder t) (size : t.storedSize ≤ Word.maxSigned32) :
    t.image = (t.nodes.filed t.maxNodeSize t.found, .ok ()) := by
  have hnodes := inOrder.storedNodes_eq
  have hfits := (inOrder.fitting size).of_mem_storedNodes
  have himage : t.image = (Arena.filed t.storedNodes t.maxNodeSize t.found, .ok ()) := by
    refine image_eq_of_found inOrder.small hfits fun n hn c hc => ?_
    rw [hnodes] at hn ⊢
    have hid : t.nodes.idAt c ∈ t.nodes.map Node.id :=
      List.map_subset Node.id (List.tail_sublist t.nodes).subset (inOrder.idAt_child hn hc)
    obtain ⟨k, -, hlookup⟩ := t.nodes.exists_lookup t.maxNodeSize hid
    have hfound : t.found c = t.nodes.offset t.maxNodeSize k := by
      rw [found, Arena.placeOf, hlookup, Option.getD_some]
    have hsmall := offset_le_of_size size k
    rw [childWord, hlookup, hfound]
    simp only [if_neg (Nat.not_lt.mpr hsmall)]
  rw [himage, hnodes]

theorem toBytes_eq (inOrder : InOrder t) (size : t.storedSize ≤ Word.maxSigned32) :
    t.toBytes = .ok (t.nodes.filed t.maxNodeSize t.found) := by
  rw [toBytes, inOrder.image_eq size]
  rfl

theorem length_filed (inOrder : InOrder t) (size : t.storedSize ≤ Word.maxSigned32) :
    (t.nodes.filed t.maxNodeSize t.found).length = t.storedSize := by
  rw [Arena.filed, List.length_append, length_preamble,
    (inOrder.fitting size).length_filed _ fun n hn => hn, Node.storedLen_eq]
  rfl

/-! ## What is read from it -/

/-- With distinct numbers every child is found at its own place. -/
theorem filed_eq_layout (inOrder : InOrder t) (distinct : (t.nodes.tail.map Node.id).Nodup) :
    t.nodes.filed t.maxNodeSize t.found = t.nodes.layout t.maxNodeSize := by
  have hnode : ∀ n ∈ t.nodes, n.filed t.maxNodeSize t.found =
      n.filed t.maxNodeSize (t.nodes.offset t.maxNodeSize) := by
    intro n hn
    have hplaces : n.children.map t.found = n.children.map (t.nodes.offset t.maxNodeSize) := by
      refine List.map_congr_left fun c hc => ?_
      obtain ⟨i, hi⟩ := List.getElem?_of_mem hn
      obtain ⟨hic, hlt⟩ := inOrder.ordered.linked.child_lt hi hc
      obtain ⟨k, rfl⟩ : ∃ k, c = k + 1 := ⟨c - 1, by omega⟩
      have hget : t.nodes[k + 1]? = some t.nodes[k + 1] := List.getElem?_eq_getElem hlt
      rw [found, Arena.idAt, hget]
      exact Arena.placeOf_eq distinct hget
    rw [Node.filed, Node.filed, hplaces]
  rw [Arena.filed, List.flatMap_congr hnode]
  rfl

theorem ofBytes_filed (inOrder : InOrder t) (size : t.storedSize ≤ Word.maxSigned32)
    (distinct : (t.nodes.tail.map Node.id).Nodup) :
    ofBytes (t.nodes.filed t.maxNodeSize t.found) = .ok t := by
  rw [inOrder.filed_eq_layout distinct, inOrder.ordered.ofBytes_layout (inOrder.fitting size)
    (fun k _ => offset_le_of_size size k) inOrder.small t.two_le]
  exact congrArg Except.ok inOrder.assembled.symm

end InOrder

/-- When offsets lead from some offsets to those only, no more nodes are read than there are of
them. -/
theorem length_le_of_gather {file : Bytes} {max : Nat} {offsets : List Nat}
    (closed : ∀ o ∈ offsets, ∀ n, readNode max (file.drop o) = .ok n → n.children ⊆ offsets)
    {queue : List (Nat × Nat)} {visited : List Nat} {a b : Arena}
    (growing : Growing file max queue visited a) (hqueue : ∀ w ∈ queue, w.2 ∈ offsets)
    (hvisited : visited ⊆ offsets) (h : gather file max queue visited a = .ok b) :
    b.length ≤ offsets.length := by
  induction queue, visited, a using gather.induct file max with
  | case1 visited a =>
    rw [Arena.gather_nil] at h
    cases h
    rw [growing.counted]
    exact (List.subperm_of_subset growing.distinct hvisited).length_le
  | case2 visited a p offset queue seen =>
    rw [gather, dif_pos seen] at h
    cases h
  | case3 visited a p offset queue fresh cause hread =>
    rw [gather_of_error fresh hread] at h
    cases h
  | case4 visited a p offset queue fresh n hread ih =>
    rw [Arena.gather_cons fresh hread] at h
    have hoffset : offset ∈ offsets := hqueue _ List.mem_cons_self
    refine ih (growing.step fresh hread) ?_ (List.cons_subset.mpr ⟨hoffset, hvisited⟩) h
    intro w hw
    rcases List.mem_append.mp hw with hold | hnew
    · exact hqueue w (List.mem_cons_of_mem _ hold)
    · obtain ⟨o, ho, rfl⟩ := List.mem_map.mp hnew
      exact closed offset hoffset n hread ho

theorem preamble_injective {m n : Nat} (hm : m ≤ Word.maxSigned32) (hn : n ≤ Word.maxSigned32)
    (h : preamble m = preamble n) : m = n := by
  have hword : Word.big 4 m = Word.big 4 n := List.append_cancel_left h
  have hnumber := congrArg (fun word => Word.signed 4 (Word.ofBig word)) hword
  simp only [Word.signed_ofBig_big hm, Word.signed_ofBig_big hn] at hnumber
  omega

theorem length_dedup_lt {xs : List Nat} (h : ¬ xs.Nodup) : xs.dedup.length < xs.length := by
  apply Nat.lt_of_le_of_ne xs.dedup_sublist.length_le
  intro heq
  exact h (List.dedup_eq_self.mp (xs.dedup_sublist.eq_of_length heq))

/-- When a number is shared below the root, some node is not read again. -/
theorem InOrder.length_lt (inOrder : InOrder t) (size : t.storedSize ≤ Word.maxSigned32)
    (shared : ¬ (t.nodes.tail.map Node.id).Nodup) {t' : RTree}
    (h : ofBytes (t.nodes.filed t.maxNodeSize t.found) = .ok t') :
    t'.nodes.length < t.nodes.length := by
  obtain ⟨⟨rest, hpreamble⟩, hsmall, -, root, hroot, hgather⟩ := ofBytes_eq_ok_iff.mp h
  have hmax : t'.maxNodeSize = t.maxNodeSize := by
    refine preamble_injective hsmall inOrder.small (List.append_inj_left hpreamble ?_)
    rw [length_preamble, length_preamble]
  rw [hmax] at hroot hgather
  -- The offsets that the words of the file lead to, and that of the root.
  let numbers := t.nodes.tail.map Node.id
  let offsets := rootOffset :: numbers.dedup.map (t.nodes.placeOf t.maxNodeSize)
  have hposition : ∀ o ∈ offsets, ∃ k < t.nodes.length, o = t.nodes.offset t.maxNodeSize k := by
    intro o ho
    rcases List.mem_cons.mp ho with rfl | ho
    · exact ⟨rootPosition, inOrder.ordered.pos, rfl⟩
    · obtain ⟨id, hid, rfl⟩ := List.mem_map.mp ho
      have hmem : id ∈ t.nodes.map Node.id :=
        List.map_subset Node.id (List.tail_sublist t.nodes).subset (List.mem_dedup.mp hid)
      exact t.nodes.exists_placeOf t.maxNodeSize hmem
  have closed : ∀ o ∈ offsets, ∀ n, readNode t.maxNodeSize
      ((t.nodes.filed t.maxNodeSize t.found).drop o) = .ok n → n.children ⊆ offsets := by
    intro o ho n hread
    obtain ⟨k, hk, rfl⟩ := hposition o ho
    have hget : t.nodes[k]? = some t.nodes[k] := List.getElem?_eq_getElem hk
    rw [(inOrder.fitting size).readNode_filed (inOrder.found_le size) hget,
      Except.ok.injEq] at hread
    subst hread
    intro place hplace
    obtain ⟨c, hc, rfl⟩ := List.mem_map.mp hplace
    have hid := inOrder.idAt_child (List.getElem_mem hk) hc
    exact List.mem_cons_of_mem _ (List.mem_map_of_mem (List.mem_dedup.mpr hid))
  have hroot_mem : rootOffset ∈ offsets := List.mem_cons_self
  have hwaiting : ∀ w ∈ root.children.map (rootPosition, ·), w.2 ∈ offsets :=
    List.forall_mem_map.mpr fun o ho => closed rootOffset hroot_mem root hroot ho
  have hle := length_le_of_gather closed (growing_root hroot) hwaiting
    (List.cons_subset.mpr ⟨hroot_mem, by simp⟩) hgather
  have hfew : numbers.dedup.length < numbers.length := length_dedup_lt shared
  have hnumbers : numbers.length = t.nodes.length - 1 := by
    rw [List.length_map, List.length_tail]
  have hoffsets : offsets.length = numbers.dedup.length + 1 := by
    rw [List.length_cons, List.length_map]
  omega

theorem SameIndex.refl (t : RTree) : SameIndex (fun i => i) t t :=
  ⟨(Mirrors.refl t).arena, rfl, rfl, rfl, rfl, rfl, fun _ => rfl⟩

end

/-- Whatever file an index has been read from, it is written if it fits the format. What is read
from that is the same index if no two nodes below the root share a number, and only then. -/
theorem read_again_iff {file : Bytes} {t : RTree} (accepted : ofBytes file = .ok t)
    (size : t.storedSize ≤ Word.maxSigned32) :
    ∃ bytes, t.toBytes = .ok bytes ∧ bytes.length = t.storedSize ∧
      ((t.nodes.tail.map Node.id).Nodup → ofBytes bytes = .ok t) ∧
      ((∃ t' π, ofBytes bytes = .ok t' ∧ SameIndex π t t') ↔
        (t.nodes.tail.map Node.id).Nodup) := by
  have inOrder := inOrder_of_ofBytes accepted
  refine ⟨_, inOrder.toBytes_eq size, inOrder.length_filed size, inOrder.ofBytes_filed size, ?_⟩
  constructor
  · rintro ⟨t', π, hread, same⟩
    by_contra shared
    have hlt := inOrder.length_lt size shared hread
    rw [same.arena.length] at hlt
    exact Nat.lt_irrefl _ hlt
  · intro distinct
    exact ⟨t, _, inOrder.ofBytes_filed size distinct, SameIndex.refl t⟩

/-! ## A root over two leaves -/

/-- The bytes of a node that may list two items, with no box and no entries. -/
def bareNode (id : Nat) (words : List Bytes) : Bytes :=
  Word.big 4 id ++ Word.big 4 0 ++ [absentMarker, absentMarker] ++ words.flatten

/-- The file of a root, with the offsets of its children, and of two leaves. -/
def twoLeaves (offsets : List Nat) (first second : Nat) : Bytes :=
  preamble 2 ++ bareNode 0 (offsets.map (Word.big 4)) ++
    bareNode first [absentChild, absentChild] ++ bareNode second [absentChild, absentChild]

/-- The index of a root over two leaves. -/
def overLeaves (first second : Nat) : RTree :=
  ofNodes [⟨0, Box.fullSpace, none, .directory [1, 2]⟩, ⟨first, Box.fullSpace, some 0, .leaf []⟩,
    ⟨second, Box.fullSpace, some 0, .leaf []⟩] 2 (by decide)

section

variable {offsets : List Nat} {id i j m n : Nat} {rest : Bytes}

theorem readNode_bareNode (hid : id ≤ Word.maxSigned32) {words : List Bytes}
    (hwords : words.flatten = wordBytes 2 offsets) (small : ∀ o ∈ offsets, o ≤ Word.maxSigned32)
    (few : offsets.length ≤ 2) :
    readNode 2 (bareNode id words ++ rest) = .ok ⟨id, Box.fullSpace, [], offsets⟩ := by
  -- A node that lists the offsets has no entries, whether there are offsets or not.
  let n : Node := ⟨id, Box.fullSpace, none, .directory offsets⟩
  have hbare : bareNode id words = n.stored 2 ++ wordBytes 2 offsets := by
    rw [bareNode, hwords]
    rfl
  have hfits : n.Fits := ⟨Nat.zero_le _, List.forall_mem_nil _⟩
  rw [hbare, readNode_stored hfits hid few small rfl]
  rfl

theorem length_bareNode {words : List Bytes} (h : words.flatten.length = 8) :
    (bareNode id words).length = 18 := by
  simp only [bareNode, List.length_append, Word.length_big, List.length_cons, List.length_nil, h]

/-- What is read at the offsets of the root and of the two leaves. -/
structure ReadsTwoLeaves (file : Bytes) (offsets : List Nat) (first second : Nat) : Prop where
  preamble : preamble 2 <+: file
  root : readNode 2 (file.drop rootOffset) = .ok ⟨0, Box.fullSpace, [], offsets⟩
  first : readNode 2 (file.drop 32) = .ok ⟨first, Box.fullSpace, [], []⟩
  second : readNode 2 (file.drop 50) = .ok ⟨second, Box.fullSpace, [], []⟩

theorem readsTwoLeaves (hi : i ≤ Word.maxSigned32) (hj : j ≤ Word.maxSigned32)
    (hm : m ≤ Word.maxSigned32) (hn : n ≤ Word.maxSigned32) :
    ReadsTwoLeaves (twoLeaves [i, j] m n) [i, j] m n := by
  have hwords : ([i, j].map (Word.big 4)).flatten = wordBytes 2 [i, j] :=
    (List.append_nil _).symm
  have hroot : (bareNode 0 ([i, j].map (Word.big 4))).length = 18 := length_bareNode (by
    simp only [List.map_cons, List.map_nil, List.flatten_cons, List.flatten_nil,
      List.length_append, Word.length_big, List.length_nil])
  have hleaf : ∀ id, (bareNode id [absentChild, absentChild]).length = 18 := fun id =>
    length_bareNode rfl
  have hnone : ∀ o ∈ ([] : List Nat), o ≤ Word.maxSigned32 := List.forall_mem_nil _
  refine ⟨?_, ?_, ?_, ?_⟩
  · simp only [twoLeaves, List.append_assoc, List.prefix_append]
  · rw [twoLeaves, List.append_assoc, List.append_assoc, List.drop_left' (length_preamble 2)]
    refine readNode_bareNode (Nat.zero_le _) hwords ?_ (Nat.le_refl 2)
    intro o ho
    rcases List.mem_pair.mp ho with rfl | rfl
    · exact hi
    · exact hj
  · rw [twoLeaves, List.append_assoc, List.drop_left' (by
      rw [List.length_append, length_preamble, hroot]
      rfl)]
    exact readNode_bareNode hm rfl hnone (Nat.zero_le 2)
  · rw [twoLeaves, List.drop_left' (by
      rw [List.length_append, List.length_append, length_preamble, hroot, hleaf]
      rfl), ← List.append_nil (bareNode n _)]
    exact readNode_bareNode hn rfl hnone (Nat.zero_le 2)

end

/-- A leaf is hung up and leaves the rest of the queue as it is. -/
theorem gather_leaf {file : Bytes} {max parent offset : Nat} {queue : List (Nat × Nat)}
    {visited : List Nat} {n : StoredNode} (fresh : offset ∉ visited)
    (h : readNode max (file.drop offset) = .ok n) (leaf : n.children = []) (b : Arena) :
    gather file max ((parent, offset) :: queue) visited b =
      gather file max queue (offset :: visited)
        ((b ++ [n.node (some parent)]).modify parent (·.list b.length)) := by
  rw [Arena.gather_cons fresh h, leaf, List.map_nil, List.append_nil]

/-- The leaves are numbered as the root lists them, wherever they lie. -/
theorem ofBytes_over_leaves {file : Bytes} {i j m n : Nat} (hpreamble : preamble 2 <+: file)
    (hroot : readNode 2 (file.drop rootOffset) = .ok ⟨0, Box.fullSpace, [], [i, j]⟩)
    (hi : readNode 2 (file.drop i) = .ok ⟨m, Box.fullSpace, [], []⟩)
    (hj : readNode 2 (file.drop j) = .ok ⟨n, Box.fullSpace, [], []⟩)
    (fresh : i ∉ [rootOffset]) (distinct : j ∉ [i, rootOffset]) :
    ofBytes file = .ok (overLeaves m n) := by
  have small : 2 ≤ Word.maxSigned32 := by decide
  refine ofBytes_eq_ok_iff.mpr ⟨hpreamble, small, rfl, _, hroot, ?_⟩
  change gather file 2 [(rootPosition, i), (rootPosition, j)] _ _ = _
  rw [gather_leaf fresh hi rfl, gather_leaf distinct hj rfl, Arena.gather_nil]
  rfl

/-- A leaf that the root lists twice is refused. -/
theorem ReadsTwoLeaves.ofBytes_eq_error {file : Bytes} {first second : Nat}
    (reads : ReadsTwoLeaves file [50, 50] first second) :
    ofBytes file = .error (.sharedNode 50) := by
  rw [ofBytes, Arena.readNodes_eq (Nat.le_refl 2) (by decide) reads.preamble reads.root]
  change (Except.map _ (gather file 2 [(rootPosition, 50), (rootPosition, 50)] _ _) >>= _) = _
  rw [gather_leaf (by decide) reads.second rfl, gather, dif_pos List.mem_cons_self]
  rfl

/-- The leaves lie in the file the other way round. -/
theorem read_again_two_leaves :
    ofBytes (twoLeaves [50, 32] 2 1) = .ok (overLeaves 1 2) ∧
      ∃ bytes, (overLeaves 1 2).toBytes = .ok bytes ∧ bytes.length = 68 ∧
        ofBytes bytes = .ok (overLeaves 1 2) := by
  have reads : ReadsTwoLeaves (twoLeaves [50, 32] 2 1) [50, 32] 2 1 :=
    readsTwoLeaves (by decide) (by decide) (by decide) (by decide)
  have accepted := ofBytes_over_leaves reads.preamble reads.root reads.second reads.first
    (by decide) (by decide)
  have hsize : (overLeaves 1 2).storedSize = 68 := by decide
  obtain ⟨bytes, hwrite, hlength, hread, -⟩ := read_again_iff accepted (by rw [hsize]; decide)
  exact ⟨accepted, bytes, hwrite, hlength.trans hsize, hread (by decide)⟩

/-- With one number for both leaves, both words of the root lead to the second leaf. -/
theorem not_read_again_with_one_number :
    ofBytes (twoLeaves [32, 50] 1 1) = .ok (overLeaves 1 1) ∧
      (overLeaves 1 1).storedSize ≤ Word.maxSigned32 ∧
      (overLeaves 1 1).toBytes = .ok (twoLeaves [50, 50] 1 1) ∧
      ofBytes (twoLeaves [50, 50] 1 1) = .error (.sharedNode 50) := by
  have reads : ReadsTwoLeaves (twoLeaves [32, 50] 1 1) [32, 50] 1 1 :=
    readsTwoLeaves (by decide) (by decide) (by decide) (by decide)
  have accepted := ofBytes_over_leaves reads.preamble reads.root reads.first reads.second
    (by decide) (by decide)
  have hsize : (overLeaves 1 1).storedSize ≤ Word.maxSigned32 := by decide
  have hwritten : Arena.filed (overLeaves 1 1).nodes 2 (overLeaves 1 1).found =
      twoLeaves [50, 50] 1 1 := by decide
  refine ⟨accepted, hsize, ?_, ?_⟩
  · rw [(inOrder_of_ofBytes accepted).toBytes_eq hsize]
    exact congrArg Except.ok hwritten
  · exact (readsTwoLeaves (by decide) (by decide) (by decide) (by decide)).ofBytes_eq_error

end RTree

end SpatialSegment
