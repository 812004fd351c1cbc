import SpatialSegment.Proofs.RTree.Layout

/-!
# Both passes of writing

The first pass leaves the words for children blank and notes where they are and where each number
stands. The second one finds every word where the first has left it, and every number, because no
two nodes share one.
-/

namespace SpatialSegment

namespace RTree

/-- A node with the words for its children left blank. -/
def Node.blank (max : Nat) (n : Node) : Bytes :=
  n.stored max ++ (List.replicate max absentChild).flatten

/-- The offsets of the numbers of nodes stored from an offset on. -/
def placesFrom (max offset : Nat) : List Node → List (Nat × Nat)
  | [] => []
  | n :: nodes => (n.id, offset) :: placesFrom max (offset + n.storedLen max) nodes

/-- The offsets of the words of nodes stored from an offset on. -/
def patchesFrom (max offset : Nat) : List Node → List (Nat × Node)
  | [] => []
  | n :: nodes =>
    (offset + (n.stored max).length, n) :: patchesFrom max (offset + n.storedLen max) nodes

section

variable {max : Nat}

theorem length_blank (n : Node) : (n.blank max).length = n.storedLen max := by
  rw [Node.blank, List.length_append, length_flatten_absentChild, Node.storedLen]

theorem map_fst_placesFrom (offset : Nat) (nodes : List Node) :
    (placesFrom max offset nodes).map Prod.fst = nodes.map Node.id := by
  induction nodes generalizing offset with
  | nil => rfl
  | cons n nodes ih => rw [placesFrom, List.map_cons, List.map_cons, ih]

theorem mem_placesFrom {nodes : List Node} {k : Nat} {n : Node} (h : nodes[k]? = some n)
    (max offset : Nat) : (n.id, offset + ((nodes.take k).map (Node.storedLen max)).sum) ∈
      placesFrom max offset nodes := by
  induction nodes generalizing offset k with
  | nil => simp at h
  | cons m nodes ih =>
    cases k with
    | zero =>
      cases h
      exact List.mem_cons_self
    | succ k =>
      refine List.mem_cons_of_mem _ ?_
      have := ih h (offset + m.storedLen max)
      rwa [Nat.add_assoc] at this

theorem lookup_of_mem {places : List (Nat × Nat)} (nodup : (places.map Prod.fst).Nodup)
    {id offset : Nat} (h : (id, offset) ∈ places) : places.lookup id = some offset := by
  induction places with
  | nil => cases h
  | cons place places ih =>
    obtain ⟨id', offset'⟩ := place
    rw [List.map_cons, List.nodup_cons] at nodup
    rw [List.lookup_cons]
    obtain hfirst | hlater := List.mem_cons.mp h
    · cases hfirst
      simp
    · have hne : (id == id') = false := by
        refine beq_eq_false_iff_ne.mpr fun heq => nodup.1 ?_
        exact List.mem_map.mpr ⟨(id, offset), hlater, heq⟩
      rw [hne]
      exact ih nodup.2 hlater

theorem writeAll_eq {nodes : List Node} (fits : ∀ n ∈ nodes, n.Fits ∧ n.size ≤ max)
    (p : FirstPass) :
    p.writeAll max nodes =
      (⟨p.file ++ nodes.flatMap (Node.blank max),
        (placesFrom max p.file.length nodes).reverse ++ p.places,
        p.patches ++ patchesFrom max p.file.length nodes⟩, .ok ()) := by
  induction nodes generalizing p with
  | nil => simp [FirstPass.writeAll, placesFrom, patchesFrom]
  | cons n nodes ih =>
    obtain ⟨hfits, hsize⟩ := fits n List.mem_cons_self
    have hlength : (p.file ++ n.stored max ++ (List.replicate max absentChild).flatten).length =
        p.file.length + n.storedLen max := by
      rw [List.append_assoc, List.length_append, ← Node.blank, length_blank]
    simp only [FirstPass.writeAll, Node.head_eq hfits hsize, FirstPass.write,
      ih fun m hm => fits m (List.mem_cons_of_mem _ hm), hlength, placesFrom, patchesFrom]
    simp [Node.blank]

/-! ## The second pass -/

theorem overwrite_append {before old new : Bytes} (h : old.length = new.length) (after : Bytes) :
    overwrite (before ++ old ++ after) before.length new = before ++ new ++ after := by
  have htake : (before ++ old ++ after).take before.length = before := by
    rw [List.append_assoc, List.take_left]
  have hdrop : (before ++ old ++ after).drop (before.length + new.length) = after := by
    rw [← h, ← List.length_append, List.drop_left]
  rw [overwrite, htake, hdrop]

/-- The words of the children at the positions are filled in where there were blanks. -/
theorem fillIn_eq {a : Arena} {places : List (Nat × Nat)} {offset : Nat → Nat} {children : List Nat}
    (found : ∀ c ∈ children, childWord places (a.idAt c) = .ok (Word.big 4 (offset c))) {k : Nat}
    (hk : children.length ≤ k) (before after : Bytes) :
    fillIn places (before ++ (List.replicate k absentChild).flatten ++ after) before.length
        (children.map a.idAt) =
      (before ++ wordBytes k (children.map offset) ++ after, .ok ()) := by
  induction children generalizing k before with
  | nil => simp [fillIn, wordBytes]
  | cons c children ih =>
    obtain ⟨k, rfl⟩ : ∃ j, k = j + 1 := ⟨k - 1, by
      rw [List.length_cons] at hk
      omega⟩
    have hlength := Word.length_big 4 (offset c)
    have hfile : before ++ (List.replicate (k + 1) absentChild).flatten ++ after =
        before ++ absentChild ++ ((List.replicate k absentChild).flatten ++ after) := by
      simp [List.replicate_succ]
    have hwords : wordBytes (k + 1) ((c :: children).map offset) =
        Word.big 4 (offset c) ++ wordBytes k (children.map offset) := by
      simp [wordBytes]
    have hnext := ih (fun x hx => found x (List.mem_cons_of_mem _ hx))
      (k := k) (by simpa using hk) (before ++ Word.big 4 (offset c))
    rw [List.length_append, hlength] at hnext
    rw [List.map_cons, fillIn, found c List.mem_cons_self, hfile]
    simp only
    rw [overwrite_append (show absentChild.length = _ from hlength.symm), ← List.append_assoc,
      hnext, hwords]
    simp

theorem fillInAll_eq {a : Arena} {places : List (Nat × Nat)} {offset : Nat → Nat}
    {nodes : List Node} (few : ∀ n ∈ nodes, n.children.length ≤ max)
    (found : ∀ n ∈ nodes, ∀ c ∈ n.children,
      childWord places (a.idAt c) = .ok (Word.big 4 (offset c))) (before : Bytes) :
    a.fillInAll places (before ++ nodes.flatMap (Node.blank max))
        (patchesFrom max before.length nodes) =
      (before ++ nodes.flatMap (Node.filed max offset), .ok ()) := by
  induction nodes generalizing before with
  | nil => simp [Arena.fillInAll, patchesFrom]
  | cons n nodes ih =>
    have hwords := fillIn_eq (found n List.mem_cons_self) (few n List.mem_cons_self)
      (before ++ n.stored max) (nodes.flatMap (Node.blank max))
    have hnext := ih (fun m hm => few m (List.mem_cons_of_mem _ hm))
      (fun m hm => found m (List.mem_cons_of_mem _ hm))
      (before ++ n.stored max ++ wordBytes max (n.children.map offset))
    have hlength : (before ++ n.stored max ++ wordBytes max (n.children.map offset)).length =
        before.length + n.storedLen max := by
      have hfew := few n List.mem_cons_self
      rw [List.length_append, List.length_append, length_wordBytes (by simpa using hfew),
        Node.storedLen, Nat.add_assoc]
    have hfile : before ++ (n :: nodes).flatMap (Node.blank max) = before ++ n.stored max ++
        (List.replicate max absentChild).flatten ++ nodes.flatMap (Node.blank max) := by
      simp [Node.blank]
    rw [hlength] at hnext
    rw [List.length_append] at hwords
    rw [patchesFrom, Arena.fillInAll, hfile, hwords]
    simp only
    rw [hnext, List.flatMap_cons, Node.filed, List.append_assoc, List.append_assoc,
      List.append_assoc]

end

section

variable {t : RTree}

theorem exists_getElem?_of_mem_storedNodes {n : Node} (h : n ∈ t.storedNodes) :
    ∃ i : Nat, t.nodes[i]? = some n := by
  obtain ⟨i, -, hi⟩ := List.mem_filterMap.mp h
  exact ⟨i, hi⟩

theorem Arena.Fitting.of_mem_storedNodes (fitting : t.nodes.Fitting t.maxNodeSize) :
    ∀ n ∈ t.storedNodes, n.Fits ∧ n.size ≤ t.maxNodeSize := by
  intro n hn
  obtain ⟨i, hi⟩ := exists_getElem?_of_mem_storedNodes hn
  exact ⟨fitting.fits hi, fitting.bounded hi⟩

namespace Writable

theorem size_le (writable : Writable t) : ∀ n ∈ t.storedNodes, n.size ≤ t.maxNodeSize := by
  intro n hn
  obtain ⟨i, hi⟩ := exists_getElem?_of_mem_storedNodes hn
  exact writable.bounded hi

theorem storedNodes_eq (writable : Writable t) :
    t.storedNodes = (t.nodes.levelOrder t.maxNodeSize).filterMap (t.nodes[·]?) := by
  rw [storedNodes, (writable.linked.levels writable.bounded).1, Option.getD_some]

theorem leveled_eq (writable : Writable t) :
    t.leveled =
      t.storedNodes.map (Node.rename ((t.nodes.levelOrder t.maxNodeSize).idxOf ·)) := by
  rw [leveled, Arena.renumber, writable.storedNodes_eq]

theorem offset_leveled (writable : Writable t) (k : Nat) :
    t.leveled.offset t.maxNodeSize k =
      rootOffset + ((t.storedNodes.take k).map (Node.storedLen t.maxNodeSize)).sum := by
  rw [Arena.offset, writable.leveled_eq, ← List.map_take, List.map_map]
  congr 3
  funext n
  exact Node.storedLen_rename _ _ n

/-- The number of a node stands for its place in the order by level. -/
theorem lookup_idAt (writable : Writable t) {i : Nat} (hi : i < t.nodes.length) :
    (placesFrom t.maxNodeSize rootOffset t.storedNodes).reverse.lookup (t.nodes.idAt i) =
      some (t.leveled.offset t.maxNodeSize
        ((t.nodes.levelOrder t.maxNodeSize).idxOf i)) := by
  have levels := writable.levels
  have hnodes := writable.storedNodes_eq
  have hoffset := writable.offset_leveled
  generalize t.nodes.levelOrder t.maxNodeSize = order at *
  have hnode : t.nodes[i]? = some t.nodes[i] := List.getElem?_eq_getElem hi
  have hplace : order.idxOf i < order.length := List.idxOf_lt_length_of_mem (levels.mem hi)
  have hids : (t.storedNodes.map Node.id).Nodup := by
    rw [hnodes]
    exact ((filterMap_getElem?_perm levels.perm).map Node.id).nodup_iff.mpr writable.distinct
  have hstored : t.storedNodes[order.idxOf i]? = some t.nodes[i] := by
    rw [hnodes, Arena.getElem?_filterMap_inside fun i => levels.lt_of_mem,
      List.getElem?_eq_getElem hplace, List.getElem_idxOf]
    exact hnode
  have hmem := mem_placesFrom hstored t.maxNodeSize rootOffset
  rw [← hoffset] at hmem
  have hnodup :
      ((placesFrom t.maxNodeSize rootOffset t.storedNodes).reverse.map Prod.fst).Nodup := by
    rwa [List.map_reverse, List.nodup_reverse, map_fst_placesFrom]
  rw [Arena.idAt, hnode]
  exact lookup_of_mem hnodup (List.mem_reverse.mpr hmem)

end Writable

/-- The second pass finds every child at its place in the order by level. -/
theorem Storable.childWord_eq (storable : Storable t) {c : Nat} (hc : c < t.nodes.length) :
    childWord (placesFrom t.maxNodeSize rootOffset t.storedNodes).reverse (t.nodes.idAt c) =
      .ok (Word.big 4 (t.leveled.offset t.maxNodeSize
        ((t.nodes.levelOrder t.maxNodeSize).idxOf c))) := by
  have levels := storable.writable.levels
  have hplace := List.idxOf_lt_length_of_mem (levels.mem hc)
  have hsmall := storable.offsets _ (levels.length_eq ▸ hplace)
  rw [childWord, storable.writable.lookup_idAt hc]
  simp only [if_neg (Nat.not_lt.mpr hsmall)]

/-- When the nodes fit and every child has a place, both passes succeed. -/
theorem image_eq_of_found {place : Nat → Nat} (small : t.maxNodeSize ≤ Word.maxSigned32)
    (fits : ∀ n ∈ t.storedNodes, n.Fits ∧ n.size ≤ t.maxNodeSize)
    (found : ∀ n ∈ t.storedNodes, ∀ c ∈ n.children,
      childWord (placesFrom t.maxNodeSize rootOffset t.storedNodes).reverse (t.nodes.idAt c) =
        .ok (Word.big 4 (place c))) :
    t.image = (Arena.filed t.storedNodes t.maxNodeSize place, .ok ()) := by
  have hwrite := writeAll_eq fits ⟨preamble t.maxNodeSize, [], []⟩
  have hfill := fillInAll_eq (a := t.nodes) (fun n hn => n.length_children_le.trans (fits n hn).2)
    found (preamble t.maxNodeSize)
  rw [length_preamble] at hfill hwrite
  rw [image, if_neg (Nat.not_lt.mpr small)]
  simp only [hwrite, List.append_nil, List.nil_append]
  exact hfill

/-- An index that fits the format is written, and its nodes are left level by level. -/
theorem Storable.image_eq (storable : Storable t) :
    t.image = (t.leveled.layout t.maxNodeSize, .ok ()) := by
  rw [image_eq_of_found storable.small storable.fitting.of_mem_storedNodes fun n hn c hc => by
    obtain ⟨i, hi⟩ := exists_getElem?_of_mem_storedNodes hn
    exact storable.childWord_eq (storable.linked.child_lt hi hc).2]
  rw [Arena.layout, Arena.filed]
  conv_rhs => rw [storable.writable.leveled_eq, List.flatMap_map]
  simp only [Arena.nodeBytes, Node.stored_rename, Node.children_rename, List.map_map,
    storable.writable.leveled_eq]
  rfl

end

end RTree

end SpatialSegment
