import SpatialSegment.Proofs.RTree.Reading
import SpatialSegment.Proofs.RTree.Size
import SpatialSegment.Proofs.RTree.Writing

/-!
# An index is read back

A sound index whose file fits the format is written and read back as the same index under new names
for its positions: those in the order of the file.
-/

namespace SpatialSegment

namespace RTree

/-- Two indexes differ in the names of their positions only. -/
structure SameIndex (π : Nat → Nat) (t t' : RTree) : Prop where
  arena : Arena.Renames π t.nodes t'.nodes
  maxNodeSize : t'.maxNodeSize = t.maxNodeSize
  length : t'.length = t.length
  nextId : t'.nextId = t.nextId
  nodeCount : t'.nodeCount = t.nodeCount
  height : t'.height = t.height
  query : ∀ region, t'.query region = t.query region

theorem Node.storedLen_eq (max : Nat) : Node.storedLen max = Node.storedSize max := by
  funext n
  have hslots : (slotBytes max n.entries).length =
      (n.entries.map fun e => 9 + e.box.storedLen).sum + (max - n.entries.length) := by
    rw [slotBytes, List.length_append, List.length_replicate, List.length_flatMap]
    congr 2
    refine List.map_congr_left fun e _ => ?_
    rw [List.length_cons, Entry.length_stored]
    omega
  simp only [Node.storedLen, Node.stored, List.length_append, Word.length_big,
    Box.length_toBytes, hslots, Node.storedSize]
  omega

section

variable {t : RTree}

theorem leveled_perm_map {α : Type} {order : List Nat} (levels : Arena.Levels t.nodes order)
    {f : Node → α} (hf : ∀ (π : Nat → Nat) (n : Node), f (n.rename π) = f n) :
    ((Arena.renumber t.nodes order).map f).Perm (t.nodes.map f) := by
  rw [Arena.renumber, List.map_map]
  have hfun : f ∘ Node.rename (order.idxOf ·) = f := funext fun n => hf _ n
  rw [hfun]
  exact (filterMap_getElem?_perm levels.perm).map f

theorem Sound.writable (sound : Sound t) : Writable t :=
  ⟨sound.linked, sound.distinct, sound.bounded⟩

theorem Sound.length_leveled (sound : Sound t) : t.leveled.length = t.nodes.length :=
  sound.writable.levels.length_renumber

theorem Sound.sum_storedLen_leveled (sound : Sound t) :
    rootOffset + (t.leveled.map (Node.storedLen t.maxNodeSize)).sum = t.storedSize := by
  have hperm := leveled_perm_map sound.writable.levels fun π n =>
    Node.storedLen_rename π t.maxNodeSize n
  rw [leveled, hperm.sum_nat, storedSize, Node.storedLen_eq]

/-- No number is too large for the format if no offset is. -/
theorem Sound.id_le (sound : Sound t)
    (offsets : ∀ k < t.nodes.length, t.leveled.offset t.maxNodeSize k ≤ Word.maxSigned32)
    {i : Nat} {n : Node} (hi : t.nodes[i]? = some n) : n.id ≤ Word.maxSigned32 := by
  have hlt : i < t.nodes.length := (List.getElem?_eq_some_iff.mp hi).1
  have hgrow : ∀ k ≤ t.leveled.length, 8 * k ≤ t.leveled.offset t.maxNodeSize k := by
    intro k hk
    induction k with
    | zero => exact Nat.zero_le _
    | succ k ih =>
      have hnode : t.leveled[k]? = some t.leveled[k] := List.getElem?_eq_getElem hk
      have := ih (by omega)
      rw [Arena.offset_succ hnode, Node.storedLen_eq, Node.storedSize]
      omega
  have hlength := sound.length_leveled
  have hlast := offsets (t.nodes.length - 1) (by omega)
  have hcount := hgrow (t.nodes.length - 1) (by omega)
  have hbelow := sound.below n.id (List.mem_map_of_mem (List.mem_of_getElem? hi))
  have hnumbers := sound.numbers
  have hmax : Word.maxSigned32 = 2147483647 := rfl
  omega

theorem Sound.storable (sound : Sound t) (small : t.maxNodeSize ≤ Word.maxSigned32)
    (fits : ∀ {i : Nat} {n : Node}, t.nodes[i]? = some n → n.Fits)
    (offsets : ∀ k < t.nodes.length, t.leveled.offset t.maxNodeSize k ≤ Word.maxSigned32) :
    Storable t where
  linked := sound.linked
  distinct := sound.distinct
  fitting := ⟨sound.bounded, sound.listing, sound.id_le offsets, fits⟩
  small := small
  offsets := offsets

/-- A node fits the format if its offsets and its size do. -/
theorem Node.fits_of_size {max : Nat} {n : Node} (size : n.storedSize max ≤ Word.maxSigned32)
    (offsets : ∀ e ∈ n.entries, e.offset ≤ Word.maxSigned32) :
    max ≤ Word.maxSigned32 ∧ n.Fits := by
  rw [Node.storedSize] at size
  refine ⟨by omega, by omega, fun e he => ⟨offsets e he, ?_⟩⟩
  have hle := List.single_le_sum (l := n.entries.map fun e => 9 + e.box.storedLen)
    (fun x _ => Nat.zero_le x) _ (List.mem_map_of_mem he)
  omega

/-- No node stands behind the end of the file. -/
theorem Arena.offset_le (a : Arena) (max k : Nat) :
    a.offset max k ≤ rootOffset + (a.map (Node.storedLen max)).sum := by
  conv_rhs => rw [← List.take_append_drop k a, List.map_append, List.sum_append]
  rw [Arena.offset]
  omega

/-- The index fits the format if its offsets and its size do. -/
theorem Sound.storable_of_size (sound : Sound t)
    (offsets : ∀ e ∈ t.entries, e.offset ≤ Word.maxSigned32)
    (size : t.storedSize ≤ Word.maxSigned32) : Storable t := by
  have hfits : ∀ n ∈ t.nodes, t.maxNodeSize ≤ Word.maxSigned32 ∧ n.Fits := fun n hn =>
    Node.fits_of_size ((storedSize_le_of_mem hn).trans size) fun e he =>
      offsets e (List.mem_flatMap.mpr ⟨n, hn, he⟩)
  obtain ⟨r, hr, -⟩ := sound.linked.root
  refine sound.storable (hfits r (List.mem_of_getElem? hr)).1
    (fun {i n} hi => (hfits n (List.mem_of_getElem? hi)).2) fun k _ => ?_
  have htotal := sound.sum_storedLen_leveled
  have hle := t.leveled.offset_le t.maxNodeSize k
  omega

theorem Storable.toBytes_eq (storable : Storable t) :
    t.toBytes = .ok (t.leveled.layout t.maxNodeSize) := by
  rw [toBytes, storable.image_eq]
  rfl

theorem Storable.ofBytes_eq (storable : Storable t) :
    ofBytes (t.leveled.layout t.maxNodeSize) = .ok (ofNodes t.leveled t.maxNodeSize t.two_le) := by
  refine storable.levelOrdered.ofBytes_layout storable.fitting_leveled (fun k hk => ?_)
    storable.small t.two_le
  exact storable.offsets k (storable.writable.levels.length_renumber ▸ hk)

/-- The index that is read is level-ordered, so writing it changes nothing. -/
theorem Storable.leveled_ofNodes (storable : Storable t) :
    (ofNodes t.leveled t.maxNodeSize t.two_le).leveled = t.leveled := by
  have ordered := storable.levelOrdered
  have fitting := storable.fitting_leveled
  change Arena.renumber t.leveled (t.leveled.levelOrder t.maxNodeSize) = t.leveled
  rw [ordered.levelOrder_eq fitting.bounded, ordered.renumber_eq fitting.bounded]

theorem Storable.ofNodes (storable : Storable t) :
    Storable (ofNodes t.leveled t.maxNodeSize t.two_le) where
  linked := storable.levelOrdered.linked
  distinct :=
    (leveled_perm_map storable.writable.levels fun _ _ => rfl).nodup_iff.mpr storable.distinct
  fitting := storable.fitting_leveled
  small := storable.small
  offsets k hk := by
    rw [storable.leveled_ofNodes]
    exact storable.offsets k (storable.writable.levels.length_renumber ▸ hk)

theorem nextId_ofNodes (sound : Sound t) :
    (RTree.ofNodes t.leveled t.maxNodeSize t.two_le).nextId = t.nextId := by
  have hids := leveled_perm_map sound.writable.levels (f := Node.id) fun _ _ => rfl
  obtain ⟨id, hid, hnext⟩ := sound.newest
  have hmax : (t.leveled.map Node.id).max? = some id := by
    refine List.max?_eq_some_iff.mpr ⟨hids.symm.subset hid, fun b hb => ?_⟩
    have := sound.below b (hids.subset hb)
    omega
  change ((t.leveled.map Node.id).max?.map (· + 1)).getD 0 = t.nextId
  rw [hmax]
  exact hnext

theorem Sound.sameIndex (sound : Sound t) :
    SameIndex ((t.nodes.levelOrder t.maxNodeSize).idxOf ·) t
      (RTree.ofNodes t.leveled t.maxNodeSize t.two_le) := by
  have renames := sound.writable.levels.renames
  have hroot := sound.linked.pos
  refine ⟨renames, rfl, ?_, nextId_ofNodes sound, renames.length, ?_, fun region => ?_⟩
  · have hperm := leveled_perm_map sound.writable.levels (f := fun n => n.entries.length)
      fun _ _ => by simp
    change (t.leveled.flatMap Node.entries).length = t.length
    rw [List.length_flatMap, leveled, hperm.sum_nat, sound.counted, entries, List.length_flatMap]
  · have hdepth := renames.deepest_eq sound.linked [(rootPosition, 1)] (by simpa using hroot) 0
    rw [List.map_singleton, renames.root] at hdepth
    rw [height, height, ← hdepth]
    rfl
  · have hsearch := renames.search_eq sound.linked region [rootPosition] (by simpa using hroot) []
    rw [List.map_singleton, renames.root] at hsearch
    rw [query, query, queryAfter, queryAfter, ← hsearch]
    rfl

end

/-- Any index made by insertion whose offsets and size fit the format is written, and what is read
from the bytes is the same index under other names; it is written as the same bytes again. -/
theorem read_after_write (maxNodeSize : Nat) (two_le : 2 ≤ maxNodeSize) (entries : List Entry)
    (offsets : ∀ e ∈ (entries.foldl RTree.insert (empty maxNodeSize two_le)).entries,
      e.offset ≤ Word.maxSigned32)
    (size : (entries.foldl RTree.insert (empty maxNodeSize two_le)).storedSize ≤
      Word.maxSigned32) :
    let t := entries.foldl RTree.insert (empty maxNodeSize two_le)
    ∃ bytes t' π, t.toBytes = .ok bytes ∧ bytes.length = t.storedSize ∧ ofBytes bytes = .ok t' ∧
      SameIndex π t t' ∧ t'.toBytes = .ok bytes := by
  intro t
  have sound : Sound t := ((sound_empty maxNodeSize two_le).foldl_insert entries).1
  have storable : Storable t := sound.storable_of_size offsets size
  refine ⟨_, _, _, storable.toBytes_eq, ?_, storable.ofBytes_eq, sound.sameIndex, ?_⟩
  · rw [storable.fitting_leveled.length_layout, sound.sum_storedLen_leveled]
  · rw [storable.ofNodes.toBytes_eq, storable.leveled_ofNodes]
    rfl

/-- Three points are in a directory with two leaves, whose words are filled in. -/
theorem read_after_write_three :
    let t := threePoints.foldl RTree.insert (empty 2 (by decide))
    1 < t.nodeCount ∧ ∃ bytes t' π, t.toBytes = .ok bytes ∧ bytes.length = t.storedSize ∧
      ofBytes bytes = .ok t' ∧ SameIndex π t t' ∧ t'.toBytes = .ok bytes := by
  intro t
  obtain ⟨offsets, size⟩ := fitsFormat_threePoints (List.prefix_refl threePoints)
  exact ⟨one_lt_nodeCount_threePoints, read_after_write 2 (by decide) threePoints offsets size⟩

end RTree

end SpatialSegment
