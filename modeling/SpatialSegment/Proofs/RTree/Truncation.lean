import SpatialSegment.Proofs.RTree.Accepted
import SpatialSegment.Proofs.RTree.Extent
import SpatialSegment.Proofs.RTree.RoundTrip

/-!
# Truncated and extended files

Of a file that has been written every byte is read: the reader takes the nodes in the order in which
they lie in the file, and the last one ends where the file does. So of a file that has been cut off
the reader gets, at the latest, to the last node and does not find all of it. What is appended to a
file is never looked at.
-/

namespace SpatialSegment

namespace RTree

namespace Arena

section

variable {a : Arena} {max k : Nat} {n : Node} {front back : Bytes}

/-- A node that is found in the front of the file is the one that stands there in the whole file. -/
theorem Fitting.eq_of_readNode_front (fitting : a.Fitting max)
    (offsets : ∀ j < a.length, a.offset max j ≤ Word.maxSigned32) (linked : Linked a)
    (hk : a[k]? = some n) (hsplit : front ++ back = a.layout max) {m : StoredNode}
    (h : readNode max (front.drop (a.offset max k)) = .ok m) :
    m = ⟨n.id, n.box, n.entries, n.children.map (a.offset max)⟩ := by
  have hwhole := readNode_drop_extended h back
  rw [hsplit, fitting.readNode_layout offsets linked hk, Except.ok.injEq] at hwhole
  exact hwhole.symm

/-- Of the last node something is missing. -/
theorem Fitting.readNode_last_cut (fitting : a.Fitting max)
    (offsets : ∀ j < a.length, a.offset max j ≤ Word.maxSigned32) (linked : Linked a)
    (hlast : k + 1 = a.length) (hsplit : front ++ back = a.layout max) (cut : back ≠ []) :
    ∃ cause, readNode max (front.drop (a.offset max k)) = .error cause := by
  cases h : readNode max (front.drop (a.offset max k)) with
  | error cause => exact ⟨cause, rfl⟩
  | ok m =>
    have hk : a[k]? = some a[k] := List.getElem?_eq_getElem (by omega)
    have hwhole := fitting.takeNode_filed (linked.offset_child_le offsets) hk
    have hnone : (a.drop (k + 1)).flatMap (Node.filed max (a.offset max)) = [] := by
      rw [hlast, List.drop_length, List.flatMap_nil]
    have hdrop : front.drop (a.offset max k) ++ back = (a.layout max).drop (a.offset max k) := by
      rw [← hsplit, List.drop_append_of_le_length (Nat.le_of_lt (offset_lt_of_readNode h))]
    rw [hnone] at hwhole
    obtain ⟨cause, hcause⟩ := readNode_cut hwhole hdrop cut
    rw [h] at hcause
    cases hcause

/-- As long as nodes remain to be read, the reader comes to one that it does not find. -/
theorem LevelOrdered.gather_cut (ordered : LevelOrdered a) (fitting : a.Fitting max)
    (offsets : ∀ j < a.length, a.offset max j ≤ Word.maxSigned32)
    (hsplit : front ++ back = a.layout max) (cut : back ≠ []) (hk : k ≤ a.length) :
    0 < k → k < a.length →
      ∃ cause, gather front max (a.pending max k) (a.seen max k) (a.upTo k) = .error cause := by
  induction hk using Nat.decreasingInduction with
  | self =>
    intro _ hlt
    exact absurd hlt (Nat.lt_irrefl _)
  | of_succ k hk ih =>
    intro hpos _
    have hn : a[k]? = some a[k] := List.getElem?_eq_getElem hk
    obtain ⟨p, q, hp, -, -, -⟩ := ordered.exists_parent hn hpos
    obtain ⟨queue, hpending, hnext⟩ := ordered.pending_eq max hn hp
    rw [hpending]
    cases hread : readNode max (front.drop (a.offset max k)) with
    | error cause => exact ⟨cause, gather_of_error (offset_notMem_seen hk) hread⟩
    | ok m =>
      obtain rfl := fitting.eq_of_readNode_front offsets ordered.linked hn hsplit hread
      have hnode := ordered.node_stored (fitting.listing hn) hn (a.offset max)
      rw [hp] at hnode
      rw [gather_cons (offset_notMem_seen hk) hread, length_upTo (Nat.le_of_lt hk), hnext,
        ← seen_succ, hnode, ordered.upTo_succ hn hpos hp]
      apply ih (Nat.succ_pos k)
      apply Nat.lt_of_le_of_ne hk
      intro hlast
      obtain ⟨cause, hcause⟩ :=
        fitting.readNode_last_cut offsets ordered.linked hlast hsplit cut
      rw [hread] at hcause
      cases hcause

/-- No file without its end is accepted. -/
theorem LevelOrdered.ofBytes_cut (ordered : LevelOrdered a) (fitting : a.Fitting max)
    (offsets : ∀ j < a.length, a.offset max j ≤ Word.maxSigned32)
    (small : max ≤ Word.maxSigned32) (two_le : 2 ≤ max)
    (hsplit : front ++ back = a.layout max) (cut : back ≠ []) :
    ∃ cause, ofBytes front = .error cause := by
  cases h : ofBytes front with
  | error cause => exact ⟨cause, rfl⟩
  | ok t =>
    have hwhole := ofBytes_extended h back
    rw [hsplit, ordered.ofBytes_layout fitting offsets small two_le, Except.ok.injEq] at hwhole
    obtain ⟨-, -, -, root, hroot, hgather⟩ := ofBytes_eq_ok_iff.mp h
    subst hwhole
    change readNode max (front.drop (a.offset max rootPosition)) = .ok root at hroot
    obtain ⟨r, hr, -⟩ := ordered.linked.root
    obtain rfl := fitting.eq_of_readNode_front offsets ordered.linked hr hsplit hroot
    change gather front max _ (a.seen max 1) _ = .ok a at hgather
    rw [← ordered.upTo_one fitting hr] at hgather
    change gather front max ((r.children.map (a.offset max)).map (rootPosition, ·)) _ _ = _
      at hgather
    rw [← ordered.pending_one max hr] at hgather
    have hpos := ordered.pos
    by_cases hone : a.length = 1
    · obtain ⟨cause, hcause⟩ :=
        fitting.readNode_last_cut (k := rootPosition) offsets ordered.linked hone.symm hsplit cut
      rw [hroot] at hcause
      cases hcause
    · obtain ⟨cause, hcause⟩ :=
        ordered.gather_cut (k := 1) fitting offsets hsplit cut hpos Nat.one_pos (by omega)
      rw [hgather] at hcause
      cases hcause

end

end Arena

/-- Of any index made by insertion that fits the format, no proper prefix of the file is accepted,
each ends the reader with a fault of the format; and whatever is appended to the file, the same
index is read. -/
theorem read_cut_or_extended (maxNodeSize : Nat) (two_le : 2 ≤ maxNodeSize) (entries : List Entry)
    (offsets : ∀ e ∈ (entries.foldl RTree.insert (empty maxNodeSize two_le)).entries,
      e.offset ≤ Word.maxSigned32)
    (size : (entries.foldl RTree.insert (empty maxNodeSize two_le)).storedSize ≤
      Word.maxSigned32) :
    let t := entries.foldl RTree.insert (empty maxNodeSize two_le)
    ∃ bytes t', t.toBytes = .ok bytes ∧ ofBytes bytes = .ok t' ∧
      (∀ front, front <+: bytes → front ≠ bytes → ∃ cause, ofBytes front = .error cause ∧
        (Cursor.index ⟨front, 0⟩).run = some (.error (.error (.format cause)))) ∧
      ∀ more, ofBytes (bytes ++ more) = .ok t' ∧
        (Cursor.index ⟨bytes ++ more, 0⟩).run = some (.ok t') := by
  intro t
  have sound : Sound t := ((sound_empty maxNodeSize two_le).foldl_insert entries).1
  have storable : Storable t := sound.storable_of_size offsets size
  refine ⟨_, _, storable.toBytes_eq, storable.ofBytes_eq, ?_, ?_⟩
  · rintro front ⟨back, hsplit⟩ hne
    have cut : back ≠ [] := by
      rintro rfl
      exact hne (by rw [← hsplit, List.append_nil])
    obtain ⟨cause, hcause⟩ := storable.levelOrdered.ofBytes_cut storable.fitting_leveled
      (fun k hk => storable.offsets k (storable.writable.levels.length_renumber ▸ hk))
      storable.small t.two_le hsplit cut
    exact ⟨cause, hcause, index_of_error hcause⟩
  · intro more
    have h := ofBytes_extended storable.ofBytes_eq more
    exact ⟨h, index_of_ok h⟩

/-- The file of three points, a directory and two leaves, cut off or with bytes behind it. -/
theorem read_cut_or_extended_three :
    let t := threePoints.foldl RTree.insert (empty 2 (by decide))
    1 < t.nodeCount ∧ ∃ bytes t', t.toBytes = .ok bytes ∧ ofBytes bytes = .ok t' ∧
      (∀ front, front <+: bytes → front ≠ bytes → ∃ cause, ofBytes front = .error cause ∧
        (Cursor.index ⟨front, 0⟩).run = some (.error (.error (.format cause)))) ∧
      ∀ more, ofBytes (bytes ++ more) = .ok t' ∧
        (Cursor.index ⟨bytes ++ more, 0⟩).run = some (.ok t') := by
  intro t
  obtain ⟨offsets, size⟩ := fitsFormat_threePoints (List.prefix_refl threePoints)
  exact ⟨one_lt_nodeCount_threePoints, read_cut_or_extended 2 (by decide) threePoints offsets size⟩

end RTree

end SpatialSegment
