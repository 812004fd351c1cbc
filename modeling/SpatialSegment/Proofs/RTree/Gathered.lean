import SpatialSegment.Proofs.Lists
import SpatialSegment.Proofs.RTree.Reading

/-!
# The arena that the offsets of a file lead to

Offsets may lead anywhere: to their own node or to one above it, to a node that another one names,
into the preamble, into the middle of a record, past the end. It is the queue that makes a tree of
what they lead to. A node goes to the end of the arena when its offset comes up, and the node that
waited for it lists it at once. So at any time links and lists agree and positions grow downwards,
and what a node has still to list is as much as it waits in the queue.
-/

namespace SpatialSegment

namespace RTree

/-! ## One node of the file -/

theorem readWord_le {rest rest' : Bytes} {word : Int} (h : readWord rest = .ok (word, rest')) :
    word ≤ Word.maxSigned32 := by
  unfold readWord at h
  split at h
  · rename_i bytes _ hsplit
    have hlength : bytes.length = 4 := (Bytes.split?_eq_some_iff.mp hsplit).2
    have hlt := Word.ofBig_lt bytes
    have hlimit : Word.limit 4 = 4294967296 := rfl
    have hmax : Word.maxSigned32 = 2147483647 := rfl
    rw [hlength] at hlt
    cases h
    unfold Word.signed
    split <;> omega
  · cases h

theorem length_readSlots {id slots : Nat} {rest rest' : Bytes} {entries : List Entry}
    (h : readSlots id slots rest = .ok (entries, rest')) : entries.length ≤ slots := by
  induction slots generalizing rest entries with
  | zero =>
    rw [readSlots] at h
    cases h
    exact Nat.le_refl _
  | succ slots ih =>
    cases rest with
    | nil =>
      rw [readSlots] at h
      cases h
    | cons marker rest =>
      rw [readSlots] at h
      split at h
      · obtain ⟨e, -, h⟩ := bind_eq_ok.mp h
        obtain ⟨es, hes, h⟩ := bind_eq_ok.mp h
        cases h
        exact Nat.succ_le_succ (ih hes)
      · split at h
        · exact Nat.le_succ_of_le (ih h)
        · cases h

theorem bounded_readChildren {id words : Nat} {rest rest' : Bytes} {offsets : List Nat}
    (h : readChildren id words rest = .ok (offsets, rest')) :
    offsets.length ≤ words ∧ ∀ o ∈ offsets, o ≤ Word.maxSigned32 := by
  induction words generalizing rest offsets with
  | zero =>
    rw [readChildren] at h
    cases h
    exact ⟨Nat.le_refl _, by simp⟩
  | succ words ih =>
    rw [readChildren] at h
    obtain ⟨⟨offset, rest₁⟩, hword, h⟩ := bind_eq_ok.mp h
    have hle := readWord_le hword
    dsimp only at h
    split at h
    · obtain ⟨hlength, hsmall⟩ := ih h
      exact ⟨Nat.le_succ_of_le hlength, hsmall⟩
    · split at h
      · cases h
      · obtain ⟨⟨rest₂, rest₃⟩, hrest, h⟩ := bind_eq_ok.mp h
        cases h
        obtain ⟨hlength, hsmall⟩ := ih hrest
        refine ⟨Nat.succ_le_succ hlength, fun o ho => ?_⟩
        obtain rfl | ho := List.mem_cons.mp ho
        · omega
        · exact hsmall o ho

/-- What any stored node keeps to. -/
structure StoredNode.Bounded (max : Nat) (n : StoredNode) : Prop where
  id : n.id ≤ Word.maxSigned32
  entries : n.entries.length ≤ max
  children : n.children.length ≤ max
  offsets : ∀ o ∈ n.children, o ≤ Word.maxSigned32

theorem bounded_of_readNode {max : Nat} {rest : Bytes} {n : StoredNode}
    (h : readNode max rest = .ok n) : n.Bounded max := by
  unfold readNode at h
  obtain ⟨⟨id, rest₁⟩, hid, h⟩ := bind_eq_ok.mp h
  have hle := readWord_le hid
  dsimp only at h
  split at h
  · cases h
  · obtain ⟨⟨box, rest₂⟩, -, h⟩ := bind_eq_ok.mp h
    obtain ⟨⟨entries, rest₃⟩, hentries, h⟩ := bind_eq_ok.mp h
    obtain ⟨⟨children, rest₄⟩, hchildren, h⟩ := bind_eq_ok.mp h
    dsimp only at h
    split at h
    · cases h
    · cases h
      obtain ⟨hlength, hsmall⟩ := bounded_readChildren hchildren
      exact ⟨by dsimp only; omega, length_readSlots hentries, hlength, hsmall⟩

section

variable {max : Nat} {parent : Option Nat} {n : StoredNode}

theorem StoredNode.parent_node : (n.node parent).parent = parent := rfl

theorem StoredNode.children_node : (n.node parent).children = [] := by
  unfold node Node.children
  cases h : n.children.isEmpty <;> simp

theorem StoredNode.Bounded.size_node (bounded : n.Bounded max) :
    (n.node parent).size + n.children.length ≤ max := by
  have hentries := bounded.entries
  have hchildren := bounded.children
  unfold node Node.size
  cases h : n.children with
  | nil => simpa [h] using hentries
  | cons o os => simpa [h] using hchildren

theorem StoredNode.items_node (h : n.children ≠ []) : (n.node parent).items = .directory [] := by
  rw [node, if_neg]
  simpa using h

theorem StoredNode.promised_node (h : (n.node parent).items = .directory []) :
    0 < n.children.length := by
  unfold node at h
  split at h
  · cases h
  · rename_i hne
    exact List.length_pos_of_ne_nil (by simpa using hne)

end

/-! ## The way through the queue -/

/-- How often a position waits in the queue. -/
def owed (queue : List (Nat × Nat)) (i : Nat) : Nat :=
  (queue.map Prod.fst).count i

theorem owed_cons (p offset : Nat) (queue : List (Nat × Nat)) (i : Nat) :
    owed ((p, offset) :: queue) i = owed queue i + if p = i then 1 else 0 := by
  rw [owed, List.map_cons, List.count_cons]
  simp [owed]

theorem owed_append (queue : List (Nat × Nat)) (k : Nat) (offsets : List Nat) (i : Nat) :
    owed (queue ++ offsets.map (k, ·)) i = owed queue i + if k = i then offsets.length else 0 := by
  simp [owed, Function.comp_def, List.count_replicate]

theorem owed_eq_zero {queue : List (Nat × Nat)} {i : Nat} (h : ∀ w ∈ queue, w.1 ≠ i) :
    owed queue i = 0 := by
  refine List.count_eq_zero.mpr fun hmem => ?_
  obtain ⟨w, hw, rfl⟩ := List.mem_map.mp hmem
  exact h w hw rfl

section

variable {p offset k : Nat} {queue : List (Nat × Nat)} {offsets : List Nat}

theorem owed_next_first (hpk : p ≠ k) :
    owed (queue ++ offsets.map (k, ·)) p + 1 = owed ((p, offset) :: queue) p := by
  rw [owed_append, owed_cons, if_neg (Ne.symm hpk), if_pos rfl]

theorem owed_next_last (hk : ∀ w ∈ queue, w.1 ≠ k) :
    owed (queue ++ offsets.map (k, ·)) k = offsets.length := by
  rw [owed_append, owed_eq_zero hk, if_pos rfl, Nat.zero_add]

theorem owed_next_of_ne {i : Nat} (hp : i ≠ p) (hk : i ≠ k) :
    owed (queue ++ offsets.map (k, ·)) i = owed ((p, offset) :: queue) i := by
  rw [owed_append, owed_cons, if_neg (Ne.symm hk), if_neg (Ne.symm hp)]

end

/-- What holds of the arena while positions with offsets wait in the queue. -/
structure Growing (file : Bytes) (max : Nat) (queue : List (Nat × Nat)) (visited : List Nat)
    (a : Arena) : Prop where
  linked : Arena.Linked a
  waiting : ∀ w ∈ queue, ∃ n cs, a[w.1]? = some n ∧ n.items = .directory cs
  room : ∀ {i : Nat} {n : Node}, a[i]? = some n → n.size + owed queue i ≤ max
  promised : ∀ {i : Nat} {n : Node}, a[i]? = some n → n.items = .directory [] → 0 < owed queue i
  numbers : ∀ {i : Nat} {n : Node}, a[i]? = some n → n.id ≤ Word.maxSigned32
  offsets : ∀ w ∈ queue, w.2 ≤ Word.maxSigned32
  counted : a.length = visited.length
  distinct : visited.Nodup
  inside : ∀ o ∈ visited, o < file.length ∧ o ≤ Word.maxSigned32

section

variable {file : Bytes} {max : Nat} {queue : List (Nat × Nat)} {visited : List Nat} {a : Arena}

theorem growing_root {root : StoredNode} (h : readNode max (file.drop rootOffset) = .ok root) :
    Growing file max (root.children.map (rootPosition, ·)) [rootOffset] [root.node none] := by
  have bounded := bounded_of_readNode h
  have howed : owed (root.children.map (rootPosition, ·)) 0 = root.children.length := by
    simp [owed, Function.comp_def, rootPosition]
  constructor
  case linked => exact Arena.linked_singleton StoredNode.parent_node StoredNode.children_node
  case waiting =>
    intro w hw
    obtain ⟨o, ho, rfl⟩ := List.mem_map.mp hw
    exact ⟨root.node none, [], rfl, StoredNode.items_node (List.ne_nil_of_mem ho)⟩
  case room =>
    intro i n hi
    obtain ⟨rfl, rfl⟩ := eq_of_getElem?_singleton hi
    rw [howed]
    exact bounded.size_node
  case promised =>
    intro i n hi hn
    obtain ⟨rfl, rfl⟩ := eq_of_getElem?_singleton hi
    rw [howed]
    exact StoredNode.promised_node hn
  case numbers =>
    intro i n hi
    obtain ⟨-, rfl⟩ := eq_of_getElem?_singleton hi
    exact bounded.id
  case offsets =>
    intro w hw
    obtain ⟨o, ho, rfl⟩ := List.mem_map.mp hw
    exact bounded.offsets o ho
  case counted => rfl
  case distinct => exact List.nodup_singleton _
  case inside =>
    intro o ho
    rw [List.mem_singleton.mp ho]
    exact ⟨offset_lt_of_readNode h, by decide⟩

theorem Growing.lt (growing : Growing file max queue visited a) {w : Nat × Nat} (hw : w ∈ queue) :
    w.1 < a.length := by
  obtain ⟨n, cs, hn, -⟩ := growing.waiting w hw
  exact (List.getElem?_eq_some_iff.mp hn).1

section

variable {p offset : Nat} {q m : Node} {offsets : List Nat}

theorem Growing.exists_first (growing : Growing file max ((p, offset) :: queue) visited a) :
    ∃ q cs, a[p]? = some q ∧ q.items = .directory cs :=
  growing.waiting _ List.mem_cons_self

/-- The nodes when the first of the queue has listed one more, and how often each then waits: the
new node with its offsets, the one that lists it once less than before, and the others as before. -/
theorem Growing.hang_cases (growing : Growing file max ((p, offset) :: queue) visited a)
    (hp : a[p]? = some q) (offsets : List Nat) {j : Nat} {x : Node}
    (hj : (a.hang p m)[j]? = some x) :
    (a[j]? = some x ∧
        owed (queue ++ offsets.map (a.length, ·)) j = owed ((p, offset) :: queue) j) ∨
      (j = p ∧ x = q.list a.length ∧
        owed (queue ++ offsets.map (a.length, ·)) p + 1 = owed ((p, offset) :: queue) p) ∨
      (j = a.length ∧ x = m ∧
        owed (queue ++ offsets.map (a.length, ·)) a.length = offsets.length) := by
  have hlt : p < a.length := growing.lt List.mem_cons_self
  obtain ⟨hold, hne⟩ | ⟨rfl, rfl⟩ | ⟨rfl, rfl⟩ := Arena.getElem?_hang_cases hp hj
  · exact .inl ⟨hold, owed_next_of_ne hne (Nat.ne_of_lt (List.getElem?_eq_some_iff.mp hold).1)⟩
  · exact .inr (.inl ⟨rfl, rfl, owed_next_first (Nat.ne_of_lt hlt)⟩)
  · refine .inr (.inr ⟨rfl, rfl, owed_next_last fun w hw => ?_⟩)
    exact Nat.ne_of_lt (growing.lt (List.mem_cons_of_mem _ hw))

/-- What waits then is a directory. -/
theorem Growing.waiting_hang (growing : Growing file max ((p, offset) :: queue) visited a)
    (hm : offsets ≠ [] → m.items = .directory []) :
    ∀ w ∈ queue ++ offsets.map (a.length, ·),
      ∃ x xs, (a.hang p m)[w.1]? = some x ∧ x.items = .directory xs := by
  obtain ⟨q, cs, hp, hq⟩ := growing.exists_first
  refine List.forall_mem_append.mpr ⟨fun w hw => ?_, List.forall_mem_map.mpr fun o ho => ?_⟩
  · obtain ⟨x, xs, hx, hxs⟩ := growing.waiting w (List.mem_cons_of_mem _ hw)
    by_cases hwp : w.1 = p
    · rw [hwp]
      exact ⟨_, _, Arena.getElem?_hang_self hp, Node.items_list hq _⟩
    · exact ⟨x, xs, Arena.getElem?_hang_of_ne hx hwp, hxs⟩
  · exact ⟨m, [], Arena.getElem?_hang_last (growing.lt List.mem_cons_self),
      hm (List.ne_nil_of_mem ho)⟩

/-- What one node gains by listing it has waited for less often. -/
theorem Growing.room_hang (growing : Growing file max ((p, offset) :: queue) visited a)
    (hm : m.size + offsets.length ≤ max) {j : Nat} {x : Node} (hj : (a.hang p m)[j]? = some x) :
    x.size + owed (queue ++ offsets.map (a.length, ·)) j ≤ max := by
  obtain ⟨q, cs, hp, hq⟩ := growing.exists_first
  obtain ⟨hold, howed⟩ | ⟨rfl, rfl, howed⟩ | ⟨rfl, rfl, howed⟩ := growing.hang_cases hp offsets hj
  · rw [howed]
    exact growing.room hold
  · have hroom := growing.room hp
    rw [Node.size_list hq]
    omega
  · rw [howed]
    exact hm

/-- A directory that lists nothing yet waits then. -/
theorem Growing.promised_hang (growing : Growing file max ((p, offset) :: queue) visited a)
    (hm : m.items = .directory [] → 0 < offsets.length) {j : Nat} {x : Node}
    (hj : (a.hang p m)[j]? = some x) (hx : x.items = .directory []) :
    0 < owed (queue ++ offsets.map (a.length, ·)) j := by
  obtain ⟨q, cs, hp, hq⟩ := growing.exists_first
  obtain ⟨hold, howed⟩ | ⟨rfl, rfl, -⟩ | ⟨rfl, rfl, howed⟩ := growing.hang_cases hp offsets hj
  · rw [howed]
    exact growing.promised hold hx
  · rw [Node.items_list hq] at hx
    simp at hx
  · rw [howed]
    exact hm hx

/-- The first of the queue lists the node at its offset, and the offsets of that node go to the end
of the queue. -/
theorem Growing.step {n : StoredNode}
    (growing : Growing file max ((p, offset) :: queue) visited a) (fresh : offset ∉ visited)
    (h : readNode max (file.drop offset) = .ok n) :
    Growing file max (queue ++ n.children.map (a.length, ·)) (offset :: visited)
      (a.hang p (n.node (some p))) := by
  have bounded := bounded_of_readNode h
  obtain ⟨q, cs, hp, hq⟩ := growing.exists_first
  obtain ⟨hoffset, hoffsets⟩ := List.forall_mem_cons.mp growing.offsets
  constructor
  case linked =>
    exact growing.linked.hang hp hq StoredNode.parent_node StoredNode.children_node
  case waiting => exact growing.waiting_hang StoredNode.items_node
  case room => exact growing.room_hang bounded.size_node
  case promised => exact growing.promised_hang StoredNode.promised_node
  case numbers =>
    intro j x hj
    obtain ⟨hold, -⟩ | ⟨rfl, rfl⟩ | ⟨rfl, rfl⟩ := Arena.getElem?_hang_cases hp hj
    · exact growing.numbers hold
    · rw [Node.id_list]
      exact growing.numbers hp
    · exact bounded.id
  case offsets =>
    exact List.forall_mem_append.mpr ⟨hoffsets, List.forall_mem_map.mpr bounded.offsets⟩
  case counted => rw [Arena.length_hang, List.length_cons, growing.counted]
  case distinct => exact List.nodup_cons.mpr ⟨fresh, growing.distinct⟩
  case inside =>
    exact List.forall_mem_cons.mpr ⟨⟨offset_lt_of_readNode h, hoffset⟩, growing.inside⟩

end

theorem gather_of_error {p offset : Nat} {cause : FormatFault} (fresh : offset ∉ visited)
    (h : readNode max (file.drop offset) = .error cause) :
    gather file max ((p, offset) :: queue) visited a = .error cause := by
  rw [gather, dif_neg fresh]
  split
  · rename_i cause' hcause
    rw [h, Except.error.injEq] at hcause
    rw [hcause]
  · rename_i n hn
    rw [h] at hn
    cases hn

/-- The shape lasts until the queue is empty. -/
theorem Growing.of_gather (growing : Growing file max queue visited a) {b : Arena}
    (h : gather file max queue visited a = .ok b) : ∃ visited', Growing file max [] visited' b := by
  induction queue, visited, a using gather.induct file max with
  | case1 visited a =>
    rw [Arena.gather_nil] at h
    cases h
    exact ⟨visited, growing⟩
  | case2 visited a p offset queue seen =>
    rw [gather, dif_pos seen] at h
    cases h
  | case3 visited a p offset queue fresh cause hread =>
    rw [gather_of_error fresh hread] at h
    cases h
  | case4 visited a p offset queue fresh n hread ih =>
    rw [Arena.gather_cons fresh hread] at h
    exact ih (growing.step fresh hread) h

/-! ## The whole file -/

/-- A distinct offset for each node keeps their number low. -/
theorem Growing.length_le (growing : Growing file max queue visited a) :
    a.length ≤ file.length ∧ a.length ≤ Word.maxSigned32 + 1 := by
  have below : ∀ bound, (∀ o ∈ visited, o < bound) → a.length ≤ bound := by
    intro bound h
    have hsubset : visited ⊆ List.range bound := fun o ho => List.mem_range.mpr (h o ho)
    rw [growing.counted, ← @List.length_range bound]
    exact (List.subperm_of_subset growing.distinct hsubset).length_le
  exact ⟨below _ fun o ho => (growing.inside o ho).1,
    below _ fun o ho => Nat.lt_succ_of_le (growing.inside o ho).2⟩

theorem Growing.size_le (growing : Growing file max queue visited a) {i : Nat} {n : Node}
    (hi : a[i]? = some n) : n.size ≤ max :=
  (Nat.le_add_right _ _).trans (growing.room hi)

theorem Growing.listing (growing : Growing file max [] visited a) {i : Nat} {n : Node}
    (hi : a[i]? = some n) : n.items ≠ .directory [] := fun hn =>
  Nat.lt_irrefl 0 (growing.promised hi hn)

/-- The number that follows from the nodes is one of an unsigned word of four bytes, and the length
one of eight bytes. -/
theorem Growing.assembled (growing : Growing file max queue visited a)
    (small : max ≤ Word.maxSigned32) (two_le : 2 ≤ max) :
    (ofNodes a max two_le).nextId < Word.limit 4 ∧
      (ofNodes a max two_le).length < Word.limit 8 := by
  have hmax : Word.maxSigned32 = 2147483647 := rfl
  have hfour : Word.limit 4 = 4294967296 := rfl
  have height : Word.limit 8 = 18446744073709551616 := rfl
  constructor
  · change ((a.map Node.id).max?.map (· + 1)).getD 0 < _
    cases h : (a.map Node.id).max? with
    | none =>
      rw [hfour]
      exact Nat.zero_lt_succ _
    | some id =>
      obtain ⟨n, hn, hid⟩ := List.mem_map.mp (List.max?_mem h)
      obtain ⟨i, hi⟩ := List.getElem?_of_mem hn
      have hnumber := growing.numbers hi
      simp only [Option.map_some, Option.getD_some]
      omega
  · change (a.flatMap Node.entries).length < _
    have hentries : ∀ n ∈ a, n.entries.length ≤ Word.maxSigned32 := fun n hn => by
      obtain ⟨i, hi⟩ := List.getElem?_of_mem hn
      have hsize := growing.size_le hi
      exact (n.length_entries_le.trans hsize).trans small
    have htotal := length_flatMap_le hentries
    have hlength := growing.length_le.2
    rw [hmax] at htotal hlength
    omega

end

end RTree

end SpatialSegment
