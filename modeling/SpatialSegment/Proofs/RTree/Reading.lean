import SpatialSegment.Proofs.RTree.Layout
import SpatialSegment.RTree.Table

/-!
# Reading what has been written

Each part of a stored node is read back with the rest behind it. The reader takes the offsets in the
order in which the nodes lie in the file, so of a level-ordered arena it has read, at any time, the
nodes up to a position, with those children that are among them.
-/

namespace SpatialSegment

namespace RTree

theorem readWord_big {n : Nat} (h : n ≤ Word.maxSigned32) (rest : Bytes) :
    readWord (Word.big 4 n ++ rest) = .ok ((n : Int), rest) := by
  simp only [readWord, Bytes.split?_big, Word.signed_ofBig_big h]

theorem readWord_absentChild (rest : Bytes) :
    readWord (absentChild ++ rest) = .ok (-1, rest) := by
  have hword : Word.signed 4 (Word.ofBig absentChild) = -1 := by decide
  simp only [readWord, Bytes.split?_append (show absentChild.length = 4 from rfl), hword]

theorem readBox_stored {b : Box} (h : b.storedLen ≤ Word.maxSigned32) (rest : Bytes) :
    readBox (Word.big 4 b.storedLen ++ b.toBytes ++ rest) = .ok (b, rest) := by
  have hsign : ¬ (b.storedLen : Int) < 0 := by omega
  rw [readBox, List.append_assoc, readWord_big h, ok_bind]
  simp only [hsign, if_false, Int.toNat_natCast, Bytes.split?_append b.length_toBytes,
    Box.ofBytes_toBytes]
  rfl

theorem readEntry_stored {e : Entry} (fits : e.Fits) (rest : Bytes) :
    readEntry (e.stored ++ rest) = .ok (e, rest) := by
  have hsign : ¬ (e.offset : Int) < 0 := by omega
  have hbox := readBox_stored fits.2 rest
  rw [readEntry, Entry.stored, List.append_assoc, List.append_assoc, readWord_big fits.1, ok_bind]
  rw [List.append_assoc] at hbox
  simp only [hsign, if_false, hbox, Int.toNat_natCast]
  rfl

theorem readSlots_slotBytes {max : Nat} {entries : List Entry} (fits : ∀ e ∈ entries, e.Fits)
    (hmax : entries.length ≤ max) (id : Nat) (rest : Bytes) :
    readSlots id max (slotBytes max entries ++ rest) = .ok (entries, rest) := by
  induction entries generalizing max with
  | nil =>
    simp only [slotBytes, List.flatMap_nil, List.nil_append, List.length_nil, Nat.sub_zero]
    induction max with
    | zero => rfl
    | succ max ih =>
      rw [List.replicate_succ, List.cons_append, readSlots, if_neg (by decide), if_pos rfl]
      exact ih (Nat.zero_le _)
  | cons e entries ih =>
    obtain ⟨max, rfl⟩ : ∃ j, max = j + 1 := ⟨max - 1, by
      rw [List.length_cons] at hmax
      omega⟩
    have hslots : slotBytes (max + 1) (e :: entries) ++ rest =
        entryMarker :: (e.stored ++ (slotBytes max entries ++ rest)) := by
      simp [slotBytes]
    rw [hslots, readSlots, if_pos rfl, readEntry_stored (fits e List.mem_cons_self), ok_bind]
    simp only [ih (fun x hx => fits x (List.mem_cons_of_mem _ hx)) (by simpa using hmax)]
    rfl

theorem readChildren_wordBytes {max : Nat} {offsets : List Nat}
    (fits : ∀ o ∈ offsets, o ≤ Word.maxSigned32) (hmax : offsets.length ≤ max) (id : Nat)
    (rest : Bytes) :
    readChildren id max (wordBytes max offsets ++ rest) = .ok (offsets, rest) := by
  induction offsets generalizing max with
  | nil =>
    simp only [wordBytes, List.flatMap_nil, List.nil_append, List.length_nil, Nat.sub_zero]
    induction max with
    | zero => rfl
    | succ max ih =>
      rw [List.replicate_succ, List.flatten_cons, List.append_assoc, readChildren,
        readWord_absentChild, ok_bind]
      simp only [if_true]
      exact ih (Nat.zero_le _)
  | cons o offsets ih =>
    obtain ⟨max, rfl⟩ : ∃ j, max = j + 1 := ⟨max - 1, by
      rw [List.length_cons] at hmax
      omega⟩
    have hwords : wordBytes (max + 1) (o :: offsets) ++ rest =
        Word.big 4 o ++ (wordBytes max offsets ++ rest) := by
      simp [wordBytes]
    have hpresent : ¬ (o : Int) = -1 := by omega
    have hsign : ¬ (o : Int) < 0 := by omega
    rw [hwords, readChildren, readWord_big (fits o List.mem_cons_self), ok_bind]
    simp only [hpresent, hsign, if_false,
      ih (fun x hx => fits x (List.mem_cons_of_mem _ hx)) (by simpa using hmax)]
    rfl

/-- A node, and the rest. -/
def takeNode (max : Nat) (rest : Bytes) : Except FormatFault (StoredNode × Bytes) := do
  let (id, rest) ← readWord rest
  if id < 0 then throw (.nodeId id)
  let (box, rest) ← readBox rest
  let (entries, rest) ← readSlots id.toNat max rest
  let (children, rest) ← readChildren id.toNat max rest
  if children ≠ [] ∧ entries ≠ [] then throw (.entriesAndChildren id.toNat)
  return (⟨id.toNat, box, entries, children⟩, rest)

/-- The reader goes on at an offset, it has no use for the rest. -/
theorem readNode_eq (max : Nat) (rest : Bytes) :
    readNode max rest = (takeNode max rest).map Prod.fst := by
  unfold readNode takeNode
  rcases readWord rest with _ | ⟨id, rest⟩
  · rfl
  simp only [ok_bind]
  by_cases hneg : id < 0
  · rw [if_pos hneg, if_pos hneg]
    rfl
  rw [if_neg hneg, if_neg hneg]
  rcases readBox rest with _ | ⟨box, rest⟩
  · rfl
  simp only [ok_bind]
  rcases readSlots id.toNat max rest with _ | ⟨entries, rest⟩
  · rfl
  simp only [ok_bind]
  rcases readChildren id.toNat max rest with _ | ⟨children, rest⟩
  · rfl
  simp only [ok_bind]
  by_cases hboth : children ≠ [] ∧ entries ≠ []
  · rw [if_pos hboth, if_pos hboth]
    rfl
  · rw [if_neg hboth, if_neg hboth]
    rfl

/-- A node is read back, with the offsets of its children. -/
theorem takeNode_stored {max : Nat} {n : Node} {offsets : List Nat} (fits : n.Fits)
    (hid : n.id ≤ Word.maxSigned32) (hsize : n.size ≤ max)
    (hoffsets : ∀ o ∈ offsets, o ≤ Word.maxSigned32)
    (hlength : offsets.length = n.children.length) (rest : Bytes) :
    takeNode max (n.stored max ++ wordBytes max offsets ++ rest) =
      .ok (⟨n.id, n.box, n.entries, offsets⟩, rest) := by
  have hsign : ¬ (n.id : Int) < 0 := by omega
  have hbox := readBox_stored fits.box
    (slotBytes max n.entries ++ (wordBytes max offsets ++ rest))
  have hslots := readSlots_slotBytes fits.entries (n.length_entries_le.trans hsize) n.id
    (wordBytes max offsets ++ rest)
  have hwords := readChildren_wordBytes hoffsets
    (hlength.trans_le (n.length_children_le.trans hsize)) n.id rest
  have hone : ¬ (offsets ≠ [] ∧ n.entries ≠ []) := by
    rintro ⟨hchildren, hentries⟩
    rw [Ne, ← List.length_eq_zero_iff, hlength] at hchildren
    unfold Node.children at hchildren
    unfold Node.entries at hentries
    cases h : n.items <;> simp [h] at hchildren hentries
  simp only [List.append_assoc] at hbox
  simp only [takeNode, Node.stored, List.append_assoc, readWord_big hid, ok_bind, hsign, if_false,
    Int.toNat_natCast, hbox, hslots, hwords, hone]
  rfl

theorem readNode_stored {max : Nat} {n : Node} {offsets : List Nat} (fits : n.Fits)
    (hid : n.id ≤ Word.maxSigned32) (hsize : n.size ≤ max)
    (hoffsets : ∀ o ∈ offsets, o ≤ Word.maxSigned32)
    (hlength : offsets.length = n.children.length) (rest : Bytes) :
    readNode max (n.stored max ++ wordBytes max offsets ++ rest) =
      .ok ⟨n.id, n.box, n.entries, offsets⟩ := by
  rw [readNode_eq, takeNode_stored fits hid hsize hoffsets hlength]
  rfl

/-! ## The nodes of a file -/

namespace Arena

section

variable {a : Arena} {max k : Nat} {n : Node}

theorem offset_succ (hk : a[k]? = some n) :
    a.offset max (k + 1) = a.offset max k + n.storedLen max := by
  rw [offset, offset, take_succ_eq hk, List.map_append, List.sum_append]
  simp [Nat.add_assoc]

theorem storedLen_pos (max : Nat) (n : Node) : 0 < n.storedLen max := by
  rw [Node.storedLen, Node.stored, List.append_assoc, List.append_assoc, List.length_append,
    Word.length_big]
  omega

theorem offset_lt (max : Nat) {j : Nat} (hjk : j < k) (hk : k ≤ a.length) :
    a.offset max j < a.offset max k := by
  induction hjk with
  | refl =>
    rw [offset_succ (List.getElem?_eq_getElem hk)]
    have := storedLen_pos max a[j]
    omega
  | @step k _ ih =>
    have := ih (by omega)
    rw [offset_succ (List.getElem?_eq_getElem hk)]
    omega

theorem Fitting.length_filed (fitting : a.Fitting max) (place : Nat → Nat) {nodes : List Node}
    (h : ∀ n ∈ nodes, n ∈ a) :
    (nodes.flatMap (Node.filed max place)).length = (nodes.map (Node.storedLen max)).sum := by
  rw [List.length_flatMap]
  congr 1
  refine List.map_congr_left fun n hn => ?_
  obtain ⟨i, hi⟩ := List.getElem?_of_mem (h n hn)
  have hlength : (wordBytes max (n.children.map place)).length = 4 * max :=
    length_wordBytes (by simpa using n.length_children_le.trans (fitting.bounded hi))
  rw [Node.filed, List.length_append, hlength, Node.storedLen]

theorem Fitting.length_layout (fitting : a.Fitting max) :
    (a.layout max).length = rootOffset + (a.map (Node.storedLen max)).sum := by
  change (a.filed max (a.offset max)).length = _
  rw [filed, List.length_append, length_preamble, fitting.length_filed _ fun n hn => hn]

/-- At the offset of a position stands its node, and behind it stand the nodes that follow. -/
theorem Fitting.takeNode_filed (fitting : a.Fitting max) {place : Nat → Nat}
    (small : ∀ n ∈ a, ∀ c ∈ n.children, place c ≤ Word.maxSigned32) (hk : a[k]? = some n) :
    takeNode max ((a.filed max place).drop (a.offset max k)) =
      .ok (⟨n.id, n.box, n.entries, n.children.map place⟩,
        (a.drop (k + 1)).flatMap (Node.filed max place)) := by
  have hfront : (preamble max ++ (a.take k).flatMap (Node.filed max place)).length =
      a.offset max k := by
    rw [List.length_append, length_preamble,
      fitting.length_filed place fun n => List.mem_of_mem_take, offset]
  have hdrop : (a.filed max place).drop (a.offset max k) =
      n.filed max place ++ (a.drop (k + 1)).flatMap (Node.filed max place) := by
    rw [filed, flatMap_at hk, List.append_assoc, ← List.append_assoc, ← hfront, List.drop_left]
  rw [hdrop, Node.filed]
  refine takeNode_stored (fitting.fits hk) (fitting.ids hk) (fitting.bounded hk) ?_
    (List.length_map _) _
  intro o ho
  obtain ⟨c, hc, rfl⟩ := List.mem_map.mp ho
  exact small n (List.mem_of_getElem? hk) c hc

theorem Fitting.readNode_filed (fitting : a.Fitting max) {place : Nat → Nat}
    (small : ∀ n ∈ a, ∀ c ∈ n.children, place c ≤ Word.maxSigned32) (hk : a[k]? = some n) :
    readNode max ((a.filed max place).drop (a.offset max k)) =
      .ok ⟨n.id, n.box, n.entries, n.children.map place⟩ := by
  rw [readNode_eq, fitting.takeNode_filed small hk]
  rfl

/-- No child is too far off if no position is. -/
theorem Linked.offset_child_le (linked : Linked a)
    (offsets : ∀ j < a.length, a.offset max j ≤ Word.maxSigned32) :
    ∀ n ∈ a, ∀ c ∈ n.children, a.offset max c ≤ Word.maxSigned32 := by
  intro n hn c hc
  obtain ⟨i, hi⟩ := List.getElem?_of_mem hn
  exact offsets c (linked.child_lt hi hc).2

theorem Fitting.readNode_layout (fitting : a.Fitting max)
    (offsets : ∀ j < a.length, a.offset max j ≤ Word.maxSigned32) (linked : Linked a)
    (hk : a[k]? = some n) :
    readNode max ((a.layout max).drop (a.offset max k)) =
      .ok ⟨n.id, n.box, n.entries, n.children.map (a.offset max)⟩ :=
  fitting.readNode_filed (linked.offset_child_le offsets) hk

end

end Arena

/-! ## Nodes read so far -/

/-- The node with those of its children that stand before a position. -/
def Node.upTo (k : Nat) (n : Node) : Node where
  id := n.id
  box := n.box
  parent := n.parent
  items :=
    match n.items with
    | .leaf entries => .leaf entries
    | .directory children => .directory (children.filter (· < k))

namespace Arena

/-- The nodes before a position as they are once these have been read. -/
def upTo (a : Arena) (k : Nat) : Arena :=
  (a.take k).map (Node.upTo k)

theorem filter_lt_range' (s m k : Nat) :
    (List.range' s m).filter (· < k) = List.range' s (min m (k - s)) := by
  induction m with
  | zero => simp
  | succ m ih =>
    rw [List.range'_concat, List.filter_append, ih, List.filter_singleton]
    by_cases h : s + 1 * m < k
    · rw [decide_eq_true h, cond_true, show min m (k - s) = m by omega,
        show min (m + 1) (k - s) = m + 1 by omega, List.range'_concat]
    · rw [decide_eq_false h, cond_false, List.append_nil, show min m (k - s) = k - s by omega,
        show min (m + 1) (k - s) = k - s by omega]

/-- Of an interval of positions, those up to one more. -/
theorem filter_lt_succ_range' (s m k : Nat) :
    (List.range' s m).filter (· < k + 1) =
      (List.range' s m).filter (· < k) ++ if s ≤ k ∧ k < s + m then [k] else [] := by
  rw [filter_lt_range', filter_lt_range']
  split
  · rw [show min m (k + 1 - s) = k - s + 1 by omega, show min m (k - s) = k - s by omega,
      List.range'_concat]
    congr 2
    omega
  · rw [show min m (k + 1 - s) = min m (k - s) by omega, List.append_nil]

section

variable {a : Arena} {max k : Nat} {n : Node}

theorem getElem?_upTo (a : Arena) (k j : Nat) :
    (a.upTo k)[j]? = if j < k then a[j]?.map (Node.upTo k) else none := by
  rw [upTo, List.getElem?_map, List.getElem?_take]
  split <;> rfl

theorem length_upTo (hk : k ≤ a.length) : (a.upTo k).length = k := by
  rw [upTo, List.length_map, List.length_take, Nat.min_eq_left hk]

theorem LevelOrdered.upTo_length (ordered : LevelOrdered a) : a.upTo a.length = a := by
  apply List.ext_getElem?
  intro j
  rw [getElem?_upTo]
  split
  · cases hj : a[j]? with
    | none => rfl
    | some n =>
      rw [Option.map_some]
      congr 1
      unfold Node.upTo
      have hchildren : ∀ c ∈ n.children, c < a.length := fun c hc =>
        (ordered.linked.child_lt hj hc).2
      unfold Node.children at hchildren
      cases n with
      | mk id box parent items =>
        cases items with
        | leaf es => rfl
        | directory cs =>
          simp only at hchildren ⊢
          rw [List.filter_eq_self.mpr fun c hc => by simpa using hchildren c hc]
  · rename_i hj
    exact (List.getElem?_eq_none (Nat.not_lt.mp hj)).symm

/-- The node that the reader makes of what is stored, before any child has been read. -/
theorem LevelOrdered.node_stored (ordered : LevelOrdered a)
    (hlisting : n.items ≠ .directory []) (hk : a[k]? = some n) (offset : Nat → Nat) :
    StoredNode.node ⟨n.id, n.box, n.entries, n.children.map offset⟩ n.parent =
      n.upTo (k + 1) := by
  have hchildren : ∀ c ∈ n.children, k < c := fun c hc => (ordered.linked.child_lt hk hc).1
  obtain ⟨id, box, parent, items⟩ := n
  cases items with
  | leaf es => rfl
  | directory cs =>
    simp only [Node.children] at hchildren
    have hnone : cs.filter (· < k + 1) = [] :=
      List.filter_eq_nil_iff.mpr fun c hc => by simpa using Nat.succ_le_of_lt (hchildren c hc)
    have hcs : cs ≠ [] := fun h => hlisting (h ▸ rfl)
    have hupTo : (⟨id, box, parent, .directory cs⟩ : Node).upTo (k + 1) =
        ⟨id, box, parent, .directory (cs.filter (· < k + 1))⟩ := rfl
    rw [hupTo, hnone]
    simp [StoredNode.node, Node.children, hcs]

theorem LevelOrdered.node_upTo_succ (ordered : LevelOrdered a) {j : Nat} (hj : a[j]? = some n) :
    n.upTo (k + 1) = if k ∈ n.children then (n.upTo k).list k else n.upTo k := by
  have hrange := ordered.children_eq hj
  obtain ⟨id, box, parent, items⟩ := n
  cases items with
  | leaf es => rfl
  | directory cs =>
    simp only [Node.children] at hrange ⊢
    rw [hrange]
    simp only [Node.upTo, filter_lt_succ_range', List.mem_range'_1]
    split
    · rfl
    · rw [List.append_nil]

theorem LevelOrdered.exists_parent (ordered : LevelOrdered a) (hk : a[k]? = some n) (hpos : 0 < k) :
    ∃ p q, n.parent = some p ∧ p < k ∧ a[p]? = some q ∧ k ∈ q.children := by
  obtain ⟨p, q, hp, hq, hmem⟩ := ordered.linked.up hk (Nat.ne_of_gt hpos)
  exact ⟨p, q, hp, (ordered.linked.child_lt hq hmem).1, hq, hmem⟩

/-- With the next node read and listed the arena is the one up to the next position. -/
theorem LevelOrdered.upTo_succ (ordered : LevelOrdered a) (hk : a[k]? = some n) (hpos : 0 < k)
    {p : Nat} (hp : n.parent = some p) :
    (a.upTo k ++ [n.upTo (k + 1)]).modify p (·.list k) = a.upTo (k + 1) := by
  obtain ⟨p', q, hp', hpk, hq, hmem⟩ := ordered.exists_parent hk hpos
  rw [hp, Option.some.injEq] at hp'
  subst hp'
  have hlt : k < a.length := (List.getElem?_eq_some_iff.mp hk).1
  have hlength := length_upTo (Nat.le_of_lt hlt)
  apply List.ext_getElem?
  intro j
  rw [List.getElem?_modify, getElem?_upTo]
  obtain hjk | rfl | hjk := Nat.lt_trichotomy j k
  · have hj : a[j]? = some a[j] := List.getElem?_eq_getElem (by omega)
    rw [List.getElem?_append_left (by omega), getElem?_upTo, if_pos hjk, if_pos (by omega), hj,
      Option.map_some, Option.map_some, ordered.node_upTo_succ hj]
    by_cases hpj : p = j
    · subst hpj
      rw [hj, Option.some.injEq] at hq
      rw [if_pos (hq ▸ hmem)]
      simp
    · have hnot : k ∉ a[j].children := fun h =>
        hpj (ordered.linked.parent_unique hq hj hmem h)
      rw [if_neg hnot]
      simp [hpj]
  · rw [List.getElem?_append_right (by omega), hlength, Nat.sub_self, if_pos (by omega), hk]
    simp [Nat.ne_of_lt hpk]
  · rw [List.getElem?_append_right (by omega), hlength, if_neg (by omega)]
    have : ([n.upTo (k + 1)] : List Node)[j - k]? = none := List.getElem?_eq_none (by simp; omega)
    rw [this]
    rfl

/-! ## The whole file -/

theorem gather_nil (file : Bytes) (max : Nat) (visited : List Nat) (b : Arena) :
    gather file max [] visited b = .ok b := by
  rw [gather]

theorem gather_cons {file : Bytes} {max parent offset : Nat} {queue : List (Nat × Nat)}
    {visited : List Nat} {n : StoredNode} (fresh : offset ∉ visited)
    (h : readNode max (file.drop offset) = .ok n) (b : Arena) :
    gather file max ((parent, offset) :: queue) visited b =
      gather file max (queue ++ n.children.map (b.length, ·)) (offset :: visited)
        ((b ++ [n.node (some parent)]).modify parent (·.list b.length)) := by
  rw [gather, dif_neg fresh]
  split
  · rename_i cause hcause
    rw [h] at hcause
    cases hcause
  · rename_i m hm
    rw [h, Except.ok.injEq] at hm
    rw [hm]

/-- The parents and the offsets of the positions that the reader still has to look at. -/
def pending (a : Arena) (max k : Nat) : List (Nat × Nat) :=
  (a.waiting k).map fun j => ((a.parentAt j).getD rootPosition, a.offset max j)

/-- The offsets of the nodes that it has read, the latest first. -/
def seen (a : Arena) (max k : Nat) : List Nat :=
  ((List.range k).map (a.offset max)).reverse

theorem seen_succ (a : Arena) (max k : Nat) :
    a.seen max (k + 1) = a.offset max k :: a.seen max k := by
  simp [seen, List.range_succ]

theorem offset_notMem_seen (hk : k < a.length) : a.offset max k ∉ a.seen max k := by
  intro hmem
  rw [seen, List.mem_reverse] at hmem
  obtain ⟨j, hj, heq⟩ := List.mem_map.mp hmem
  have := offset_lt max (List.mem_range.mp hj) (Nat.le_of_lt hk)
  omega

theorem LevelOrdered.pending_eq (ordered : LevelOrdered a) (max : Nat) (hk : a[k]? = some n)
    {p : Nat} (hp : n.parent = some p) : ∃ queue, a.pending max k = (p, a.offset max k) :: queue ∧
      queue ++ (n.children.map (a.offset max)).map (k, ·) = a.pending max (k + 1) := by
  obtain ⟨queue, hwaiting, hnext⟩ := ordered.waiting_eq hk
  refine ⟨queue.map fun j => ((a.parentAt j).getD rootPosition, a.offset max j), ?_, ?_⟩
  · rw [pending, hwaiting, List.map_cons, parentAt_eq hk, hp]
    rfl
  · rw [pending, ← hnext, List.map_append, List.map_map]
    congr 1
    refine List.map_congr_left fun c hc => ?_
    obtain ⟨-, m, hm, hparent⟩ := ordered.linked.down hk c hc
    rw [parentAt_eq hm, hparent]
    rfl

theorem LevelOrdered.gather_eq (ordered : LevelOrdered a) (fitting : a.Fitting max)
    (offsets : ∀ j < a.length, a.offset max j ≤ Word.maxSigned32) (hk : k ≤ a.length)
    (hpos : 0 < k) :
    gather (a.layout max) max (a.pending max k) (a.seen max k) (a.upTo k) = .ok a := by
  induction hk using Nat.decreasingInduction with
  | self => rw [pending, ordered.waiting_length, List.map_nil, gather_nil, ordered.upTo_length]
  | of_succ k hk ih =>
    have hn : a[k]? = some a[k] := List.getElem?_eq_getElem hk
    obtain ⟨p, q, hp, -, -, -⟩ := ordered.exists_parent hn hpos
    obtain ⟨queue, hpending, hnext⟩ := ordered.pending_eq max hn hp
    have hnode := ordered.node_stored (fitting.listing hn) hn (a.offset max)
    rw [hp] at hnode
    rw [hpending, gather_cons (offset_notMem_seen hk)
      (fitting.readNode_layout offsets ordered.linked hn), length_upTo (Nat.le_of_lt hk), hnext,
      ← seen_succ, hnode, ordered.upTo_succ hn hpos hp]
    exact ih (Nat.succ_pos k)

/-- With the root read its children wait. -/
theorem LevelOrdered.pending_one (ordered : LevelOrdered a) (max : Nat) {r : Node}
    (hr : a[rootPosition]? = some r) :
    a.pending max 1 = (r.children.map (a.offset max)).map (rootPosition, ·) := by
  have hwaiting : a.waiting 1 = r.children := by
    have hstart := start_succ hr
    have h0 : a.start rootPosition = 1 := rfl
    rw [h0] at hstart
    change a.start 1 = _ at hstart
    rw [waiting, hstart, ordered.children_eq hr, h0, List.length_range']
    congr 1
    omega
  rw [pending, hwaiting, List.map_map]
  refine List.map_congr_left fun c hc => ?_
  obtain ⟨-, m, hm, hparent⟩ := ordered.linked.down hr c hc
  rw [parentAt_eq hm, hparent]
  rfl

theorem LevelOrdered.upTo_one (ordered : LevelOrdered a) (fitting : a.Fitting max) {r : Node}
    (hr : a[rootPosition]? = some r) :
    a.upTo 1 = [StoredNode.node ⟨r.id, r.box, r.entries, r.children.map (a.offset max)⟩ none] := by
  obtain ⟨r', hr', hnone⟩ := ordered.linked.root
  rw [hr, Option.some.injEq] at hr'
  have hnode := ordered.node_stored (fitting.listing hr) hr (a.offset max)
  rw [hr', hnone] at hnode
  have hget : a[0]? = some r := hr
  rw [upTo, List.take_one, List.head?_eq_getElem?, hget, hr', hnode]
  rfl

/-- Behind the preamble and the root the nodes of the queue are read. -/
theorem readNodes_eq {file : Bytes} {root : StoredNode} (two_le : 2 ≤ max)
    (small : max ≤ Word.maxSigned32) (hpreamble : preamble max <+: file)
    (hroot : readNode max (file.drop rootOffset) = .ok root) :
    readNodes file = (gather file max (root.children.map (rootPosition, ·)) [rootOffset]
      [root.node none]).map (max, ·) := by
  obtain ⟨rest, rfl⟩ := hpreamble
  have hsplit : Bytes.split? FileFormat.bodyStart (preamble max ++ rest) =
      some (FileFormat.spatialIndex.magic, Word.big 4 max ++ rest) := by
    rw [preamble, List.append_assoc]
    exact Bytes.split?_append (FileFormat.length_magic _) _
  have hsize : ¬ (max : Int) < 2 := by omega
  rw [← length_preamble max, List.drop_left] at hroot
  simp only [readNodes, hsplit, readWord_big small, ok_bind, hsize, if_false,
    Int.toNat_natCast, hroot, ne_eq, not_true_eq_false]
  cases gather (preamble max ++ rest) max (root.children.map (rootPosition, ·)) [rootOffset]
    [root.node none] <;> rfl

/-- The reader finds the arena that has been laid out. -/
theorem LevelOrdered.ofBytes_layout (ordered : LevelOrdered a) (fitting : a.Fitting max)
    (offsets : ∀ j < a.length, a.offset max j ≤ Word.maxSigned32)
    (small : max ≤ Word.maxSigned32) (two_le : 2 ≤ max) :
    ofBytes (a.layout max) = .ok (ofNodes a max two_le) := by
  obtain ⟨r, hr, -⟩ := ordered.linked.root
  have hpreamble : preamble max <+: a.layout max := List.prefix_append _ _
  have hread := fitting.readNode_layout offsets ordered.linked hr
  have hgather := ordered.gather_eq (k := 1) fitting offsets ordered.pos Nat.one_pos
  have hseen : a.seen max 1 = [rootOffset] := rfl
  rw [ordered.pending_one max hr, ordered.upTo_one fitting hr, hseen] at hgather
  rw [ofBytes, readNodes_eq two_le small hpreamble hread, hgather]
  simp only [Except.map, ok_bind, dif_pos two_le]
  rfl

end

end Arena

end RTree

end SpatialSegment
