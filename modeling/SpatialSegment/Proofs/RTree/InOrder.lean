import SpatialSegment.Proofs.RTree.Extent

/-!
# What has been read lies in level order

The positions in the queue never decrease, and a node goes to the end of the arena as the first of
the queue lists it. So, wherever the offsets lead, the children of the nodes in turn are the
positions in turn: the arena that has been read is in the order in which it would be written.
-/

namespace SpatialSegment

namespace RTree

/-! ## Entries of a stored node -/

theorem offset_le_of_readEntry {bs rest : Bytes} {e : Entry} (h : readEntry bs = .ok (e, rest)) :
    e.offset ≤ Word.maxSigned32 := by
  obtain ⟨⟨offset, rest₁⟩, hword, h⟩ := bind_eq_ok.mp h
  have hle := readWord_le hword
  dsimp only at h
  split at h
  · cases h
  · obtain ⟨⟨box, rest₂⟩, -, h⟩ := bind_eq_ok.mp h
    cases h
    dsimp only
    omega

theorem offset_le_of_readSlots {id slots : Nat} {bs rest : Bytes} {entries : List Entry}
    (h : readSlots id slots bs = .ok (entries, rest)) :
    ∀ e ∈ entries, e.offset ≤ Word.maxSigned32 := by
  induction slots generalizing bs entries with
  | zero =>
    cases h
    simp
  | succ slots ih =>
    cases bs with
    | nil => cases h
    | cons marker bs =>
      rw [readSlots] at h
      split at h
      · obtain ⟨⟨e, rest₁⟩, hentry, h⟩ := bind_eq_ok.mp h
        obtain ⟨⟨es, rest₂⟩, hslots, h⟩ := bind_eq_ok.mp h
        cases h
        intro x hx
        rcases List.mem_cons.mp hx with rfl | hx
        · exact offset_le_of_readEntry hentry
        · exact ih hslots x hx
      · split at h
        · exact ih h
        · cases h

theorem offset_le_of_readNode {max : Nat} {bs : Bytes} {n : StoredNode}
    (h : readNode max bs = .ok n) : ∀ e ∈ n.entries, e.offset ≤ Word.maxSigned32 := by
  obtain ⟨⟨id, rest₁⟩, -, h⟩ := bind_eq_ok.mp h
  dsimp only at h
  split at h
  · cases h
  · obtain ⟨⟨box, rest₂⟩, -, h⟩ := bind_eq_ok.mp h
    obtain ⟨⟨entries, rest₃⟩, hentries, h⟩ := bind_eq_ok.mp h
    obtain ⟨⟨children, rest₄⟩, -, h⟩ := bind_eq_ok.mp h
    dsimp only at h
    split at h
    · cases h
    · cases h
      exact offset_le_of_readSlots hentries

theorem StoredNode.mem_of_mem_node {n : StoredNode} {parent : Option Nat} {e : Entry}
    (h : e ∈ (n.node parent).entries) : e ∈ n.entries := by
  unfold node Node.entries at h
  cases hempty : n.children.isEmpty with
  | true => simpa [hempty] using h
  | false => simp [hempty] at h

/-! ## The order of the queue -/

/-- Positions wait in order, and those behind one that waits list nothing yet. -/
structure Queued (queue : List (Nat × Nat)) (a : Arena) : Prop where
  sorted : (queue.map Prod.fst).Pairwise (· ≤ ·)
  behind : ∀ w ∈ queue, ∀ {j : Nat} {n : Node}, w.1 < j → a[j]? = some n → n.children = []
  listed : a.flatMap Node.children = List.range' 1 (a.length - 1)
  offsets : ∀ {i : Nat} {n : Node}, a[i]? = some n → ∀ e ∈ n.entries, e.offset ≤ Word.maxSigned32

section

variable {file : Bytes} {max : Nat} {queue : List (Nat × Nat)} {visited : List Nat} {a : Arena}

theorem sorted_children (k : Nat) (offsets : List Nat) :
    ((offsets.map (k, ·)).map Prod.fst).Pairwise (· ≤ ·) := by
  rw [List.map_map]
  refine List.pairwise_map.mpr (List.pairwise_of_forall fun _ _ => ?_)
  exact Nat.le_refl k

theorem queued_root {root : StoredNode} (h : readNode max (file.drop rootOffset) = .ok root) :
    Queued (root.children.map (rootPosition, ·)) [root.node none] := by
  constructor
  case sorted => exact sorted_children rootPosition root.children
  case behind =>
    intro w hw j n hlt hj
    obtain ⟨rfl, -⟩ := eq_of_getElem?_singleton hj
    exact absurd hlt (Nat.not_lt_zero _)
  case listed =>
    rw [List.flatMap_cons, StoredNode.children_node]
    rfl
  case offsets =>
    intro i n hi e he
    obtain ⟨-, rfl⟩ := eq_of_getElem?_singleton hi
    exact offset_le_of_readNode h e (StoredNode.mem_of_mem_node he)

/-- When nothing behind a position lists anything, a node that it lists comes last of all. -/
theorem Arena.flatMap_children_hang {p : Nat} {q m : Node} {cs : List Nat} (hp : a[p]? = some q)
    (hq : q.items = .directory cs) (hm : m.children = [])
    (behind : ∀ {j : Nat} {n : Node}, p < j → a[j]? = some n → n.children = []) :
    (a.hang p m).flatMap Node.children = a.flatMap Node.children ++ [a.length] := by
  have hlt : p < a.length := (List.getElem?_eq_some_iff.mp hp).1
  have hrest : (a.drop (p + 1)).flatMap Node.children = [] := by
    refine List.flatMap_eq_nil_iff.mpr fun n hn => ?_
    obtain ⟨j, hj⟩ := List.getElem?_of_mem hn
    rw [List.getElem?_drop] at hj
    exact behind (by omega) hj
  have hself : (a.modify p (·.list a.length))[p]? = some (q.list a.length) := by
    rw [List.getElem?_modify_eq, hp]
    rfl
  have htake : (a.modify p (·.list a.length)).take p = a.take p := by
    rw [List.take_modify, List.modify_eq_self (by simp)]
  have hdrop : (a.modify p (·.list a.length)).drop (p + 1) = a.drop (p + 1) :=
    List.drop_modify_of_lt _ _ _ _ (Nat.lt_succ_self p)
  rw [Arena.hang_eq hlt, List.flatMap_append, flatMap_at hself, htake, hdrop, hrest, flatMap_at hp,
    hrest, Node.children_list hq]
  simp [hm]

theorem Queued.step {p offset : Nat} {n : StoredNode} (queued : Queued ((p, offset) :: queue) a)
    (growing : Growing file max ((p, offset) :: queue) visited a)
    (h : readNode max (file.drop offset) = .ok n) :
    Queued (queue ++ n.children.map (a.length, ·)) (a.hang p (n.node (some p))) := by
  obtain ⟨q, cs, hp, hq⟩ : ∃ q cs, a[p]? = some q ∧ q.items = .directory cs :=
    growing.waiting _ List.mem_cons_self
  have hlt : p < a.length := growing.lt List.mem_cons_self
  obtain ⟨hfirst, hsorted⟩ := List.pairwise_cons.mp queued.sorted
  constructor
  case sorted =>
    rw [List.map_append]
    refine List.pairwise_append.mpr ⟨hsorted, sorted_children a.length n.children, ?_⟩
    intro i hi j hj
    obtain ⟨w, hw, rfl⟩ := List.mem_map.mp hi
    obtain ⟨v, hv, rfl⟩ := List.mem_map.mp hj
    obtain ⟨o, -, rfl⟩ := List.mem_map.mp hv
    exact Nat.le_of_lt (growing.lt (List.mem_cons_of_mem _ hw))
  case behind =>
    intro w hw j x hwj hj
    have hpw : p ≤ w.1 := by
      rcases List.mem_append.mp hw with hw | hw
      · exact hfirst _ (List.mem_map_of_mem hw)
      · obtain ⟨o, -, rfl⟩ := List.mem_map.mp hw
        exact Nat.le_of_lt hlt
    rcases Arena.getElem?_hang_cases hp hj with ⟨hold, -⟩ | ⟨rfl, -⟩ | ⟨-, rfl⟩
    · exact queued.behind _ List.mem_cons_self (Nat.lt_of_le_of_lt hpw hwj) hold
    · omega
    · exact StoredNode.children_node
  case listed =>
    have hpos : 1 + (a.length - 1) = a.length := Nat.add_sub_cancel' (Nat.zero_lt_of_lt hlt)
    rw [Arena.flatMap_children_hang hp hq StoredNode.children_node
      (queued.behind _ List.mem_cons_self), queued.listed, Arena.length_hang, Nat.add_sub_cancel]
    conv_rhs => rw [← Nat.sub_add_cancel (Nat.zero_lt_of_lt hlt), List.range'_concat]
    rw [Nat.one_mul, hpos]
  case offsets =>
    intro j x hj e he
    rcases Arena.getElem?_hang_cases hp hj with ⟨hold, -⟩ | ⟨rfl, rfl⟩ | ⟨-, rfl⟩
    · exact queued.offsets hold e he
    · rw [Node.entries, Node.items_list hq] at he
      cases he
    · exact offset_le_of_readNode h e (StoredNode.mem_of_mem_node he)

/-- What holds while positions wait holds when the queue is empty. -/
theorem Queued.of_gather (queued : Queued queue a) (growing : Growing file max queue visited a)
    {b : Arena} (h : gather file max queue visited a = .ok b) :
    ∃ visited', Growing file max [] visited' b ∧ Queued [] b := by
  induction queue, visited, a using gather.induct file max with
  | case1 visited a =>
    rw [Arena.gather_nil] at h
    cases h
    exact ⟨visited, growing, queued⟩
  | case2 visited a p offset queue seen =>
    rw [gather, dif_pos seen] at h
    cases h
  | case3 visited a p offset queue fresh cause hread =>
    rw [gather_of_error fresh hread] at h
    cases h
  | case4 visited a p offset queue fresh n hread ih =>
    rw [Arena.gather_cons fresh hread] at h
    exact ih (queued.step growing hread) (growing.step fresh hread) h

/-- An index that has been read: its nodes lie in level order, and each is one that the format
holds. -/
structure InOrder (t : RTree) : Prop where
  ordered : Arena.LevelOrdered t.nodes
  bounded : ∀ {i : Nat} {n : Node}, t.nodes[i]? = some n → n.size ≤ t.maxNodeSize
  listing : ∀ {i : Nat} {n : Node}, t.nodes[i]? = some n → n.items ≠ .directory []
  ids : ∀ {i : Nat} {n : Node}, t.nodes[i]? = some n → n.id ≤ Word.maxSigned32
  offsets : ∀ {i : Nat} {n : Node}, t.nodes[i]? = some n →
    ∀ e ∈ n.entries, e.offset ≤ Word.maxSigned32
  small : t.maxNodeSize ≤ Word.maxSigned32
  assembled : t = ofNodes t.nodes t.maxNodeSize t.two_le

theorem inOrder_of_ofBytes {t : RTree} (h : ofBytes file = .ok t) : InOrder t := by
  obtain ⟨-, small, htree, root, hroot, hgather⟩ := ofBytes_eq_ok_iff.mp h
  obtain ⟨visited, growing, queued⟩ := (queued_root hroot).of_gather (growing_root hroot) hgather
  exact ⟨⟨growing.linked, queued.listed⟩, growing.size_le, growing.listing, growing.numbers,
    queued.offsets, small, htree⟩

end

end RTree

end SpatialSegment
