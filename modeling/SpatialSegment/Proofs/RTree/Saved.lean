import SpatialSegment.Proofs.RTree.Query
import SpatialSegment.Proofs.RTree.RoundTrip

/-!
# What has been written is in the format

When writing a sound index comes to its end without an error, the index fits the format: the first
pass has looked at every box and every entry, and the second one at the offset of every node that is
a child, which is every node but the root. So the index is read back from what has been written.
-/

namespace SpatialSegment

namespace RTree

variable {max : Nat}

theorem fits_of_writeAll {nodes : List Node} {p : FirstPass}
    (bounded : ∀ n ∈ nodes, n.size ≤ max) (h : (p.writeAll max nodes).2 = .ok ()) :
    ∀ n ∈ nodes, n.Fits := by
  induction nodes generalizing p with
  | nil => simp
  | cons n nodes ih =>
    rw [FirstPass.writeAll] at h
    cases hhead : n.head max with
    | error cause =>
      rw [hhead] at h
      cases h
    | ok head =>
      rw [hhead] at h
      intro m hm
      rcases List.mem_cons.mp hm with rfl | hmem
      · exact Node.fits_of_head hhead (bounded m List.mem_cons_self)
      · exact ih (fun m hm => bounded m (List.mem_cons_of_mem _ hm)) h m hmem

theorem childWord_of_fillIn {places : List (Nat × Nat)} {file : Bytes} {offset : Nat}
    {ids : List Nat} (h : (fillIn places file offset ids).2 = .ok ()) :
    ∀ id ∈ ids, ∃ word, childWord places id = .ok word := by
  induction ids generalizing file offset with
  | nil => simp
  | cons id ids ih =>
    rw [fillIn] at h
    cases hword : childWord places id with
    | error cause =>
      rw [hword] at h
      cases h
    | ok word =>
      rw [hword] at h
      intro id' hid'
      rcases List.mem_cons.mp hid' with rfl | hmem
      · exact ⟨word, hword⟩
      · exact ih h id' hmem

theorem childWord_of_fillInAll {a : Arena} {places : List (Nat × Nat)} {file : Bytes}
    {offset : Nat} {nodes : List Node}
    (h : (a.fillInAll places file (patchesFrom max offset nodes)).2 = .ok ()) :
    ∀ n ∈ nodes, ∀ c ∈ n.children, ∃ word, childWord places (a.idAt c) = .ok word := by
  induction nodes generalizing file offset with
  | nil => simp
  | cons n nodes ih =>
    rw [patchesFrom, Arena.fillInAll] at h
    cases hfill : fillIn places file (offset + (n.stored max).length) (n.children.map a.idAt) with
    | mk filled result =>
      rw [hfill] at h
      cases result with
      | error cause => cases h
      | ok _ =>
        intro m hm c hc
        rcases List.mem_cons.mp hm with rfl | hmem
        · exact childWord_of_fillIn (congrArg Prod.snd hfill) _ (List.mem_map_of_mem hc)
        · exact ih h m hmem c hc

theorem lookup_of_childWord {places : List (Nat × Nat)} {id : Nat} {word : Bytes}
    (h : childWord places id = .ok word) :
    ∃ offset, places.lookup id = some offset ∧ offset ≤ Word.maxSigned32 := by
  unfold childWord at h
  split at h
  · cases h
  · split at h
    · cases h
    · exact ⟨_, ‹_›, by omega⟩

section

variable {t : RTree}

theorem Writable.mem_storedNodes (writable : Writable t) {i : Nat} {n : Node}
    (hi : t.nodes[i]? = some n) : n ∈ t.storedNodes := by
  rw [writable.storedNodes_eq]
  exact List.mem_filterMap.mpr
    ⟨i, writable.levels.mem (List.getElem?_eq_some_iff.mp hi).1, hi⟩

/-- Every node but the root is a child whose word has been written, so its offset fits a word. -/
theorem Sound.offset_le (sound : Sound t)
    (words : ∀ n ∈ t.storedNodes, ∀ c ∈ n.children, ∃ word,
      childWord (placesFrom t.maxNodeSize rootOffset t.storedNodes).reverse (t.nodes.idAt c) =
        .ok word) {k : Nat} (hk : k < t.nodes.length) :
    t.leveled.offset t.maxNodeSize k ≤ Word.maxSigned32 := by
  have writable := sound.writable
  have levels := writable.levels
  obtain ⟨i, hi⟩ : ∃ i, (t.nodes.levelOrder t.maxNodeSize)[k]? = some i :=
    ⟨_, List.getElem?_eq_getElem (levels.length_eq ▸ hk)⟩
  have hlt : i < t.nodes.length := levels.lt_of_mem (List.mem_of_getElem? hi)
  have hidx : (t.nodes.levelOrder t.maxNodeSize).idxOf i = k := by
    obtain ⟨hklt, rfl⟩ := List.getElem?_eq_some_iff.mp hi
    exact levels.nodup.idxOf_getElem k hklt
  by_cases hroot : i = rootPosition
  · -- the root stands right behind the preamble
    have hzero : k = 0 := by
      rw [← hidx, hroot, levels.eq, List.idxOf_cons_self]
    rw [hzero, Arena.offset, List.take_zero]
    exact (by decide : rootOffset ≤ Word.maxSigned32)
  · obtain ⟨p, q, -, hp, hmem⟩ := sound.linked.up (List.getElem?_eq_getElem hlt) hroot
    obtain ⟨word, hword⟩ := words q (writable.mem_storedNodes hp) i hmem
    obtain ⟨offset, hlookup, hle⟩ := lookup_of_childWord hword
    rw [writable.lookup_idAt hlt, hidx] at hlookup
    cases hlookup
    exact hle

/-- An index that has been written without an error fits the format. -/
theorem Sound.storable_of_image (sound : Sound t) (h : t.image.2 = .ok ()) : Storable t := by
  have writable := sound.writable
  unfold image at h
  by_cases hsmall : Word.maxSigned32 < t.maxNodeSize
  · rw [if_pos hsmall] at h
    cases h
  · rw [if_neg hsmall] at h
    dsimp only at h
    have hfits : ∀ n ∈ t.storedNodes, n.Fits := by
      cases hpass : FirstPass.writeAll t.maxNodeSize ⟨preamble t.maxNodeSize, [], []⟩
          t.storedNodes with
      | mk pass result =>
        rw [hpass] at h
        cases result with
        | error cause => cases h
        | ok _ => exact fits_of_writeAll writable.size_le (congrArg Prod.snd hpass)
    rw [writeAll_eq fun n hn => ⟨hfits n hn, writable.size_le n hn⟩, length_preamble,
      List.append_nil, List.nil_append] at h
    exact sound.storable (by omega) (fun hi => hfits _ (writable.mem_storedNodes hi))
      fun k hk => sound.offset_le (childWord_of_fillInAll h) hk

/-- A sound index that has been written is read back as one that answers every region alike and
holds the same entries. -/
theorem Sound.exists_ofBytes (sound : Sound t) (h : t.image.2 = .ok ()) :
    ∃ t', ofBytes t.image.1 = .ok t' ∧ (∀ region, t'.query region = t.query region) ∧
      t'.entries.Perm t.entries := by
  have storable := sound.storable_of_image h
  refine ⟨_, ?_, sound.sameIndex.query, ?_⟩
  · rw [storable.image_eq]
    exact storable.ofBytes_eq
  · have hperm := leveled_perm_map sound.writable.levels fun _ _ => Node.entries_rename
    rw [entries, entries, List.flatMap_def, List.flatMap_def]
    exact hperm.flatten

end

end RTree

end SpatialSegment
