import SpatialSegment.Proofs.KeyIndex.Cached
import SpatialSegment.Proofs.Log

/-!
# The index of a log in order

The index holds the offsets of the records of a log, which lead to tuples in the order of their
keys. Then every ordinal gives its tuple, iteration gives all tuples, and a search gives the offsets
of the tuples with the key.
-/

namespace SpatialSegment

namespace KeyIndex

variable {fs : FileSystem} {x : KeyIndex}

section

variable {offsets : List Nat} {keys : List String}

/-- The bytes of an index file with the offsets. -/
def offsetBytes (offsets : List Nat) : Bytes :=
  FileFormat.keyIndex.magic ++ offsets.flatMap (Word.big 4)

theorem length_offsetBytes (offsets : List Nat) :
    (offsetBytes offsets).length = FileFormat.bodyStart + 4 * offsets.length := by
  rw [offsetBytes, List.length_append, FileFormat.length_magic,
    length_flatMap_const (Word.length_big 4)]

theorem length_of_shows (shows : x.file.Shows fs (offsetBytes offsets)) :
    x.length = offsets.length := by
  rw [length, shows.bodyLen_eq, length_offsetBytes, recordLen]
  omega

/-- An ordinal gives its offset, as far as the file can be gone to. -/
theorem offsetAt_of_shows (shows : x.file.Shows fs (offsetBytes offsets))
    (room : (offsetBytes offsets).length ≤ View.signedLimit) {i o : Nat}
    (ho : offsets[i]? = some o) (hle : o ≤ Word.maxSigned32) : x.offsetAt fs i = .ok (some o) := by
  have hi := (List.getElem?_eq_some_iff.mp ho).1
  have hlimit : Word.limit 8 = 18446744073709551616 := rfl
  have hsigned : View.signedLimit = 9223372036854775808 := rfl
  have hbefore : (offsetBytes (offsets.take i)).length = i * recordLen + FileFormat.bodyStart := by
    rw [length_offsetBytes, List.length_take, recordLen]
    omega
  rw [length_offsetBytes, FileFormat.bodyStart] at room
  rw [offsetAt, if_neg (by rw [recordLen, FileFormat.bodyStart]; omega), shows.use_eq (.ok o)]
  · rfl
  · intro v hv
    rw [offsetBytes, flatMap_at ho, ← List.append_assoc, ← List.append_assoc] at hv
    have hroom : (offsetBytes (offsets.take i)).length < View.signedLimit := by
      rw [hbefore, recordLen, FileFormat.bodyStart]
      omega
    have hread : x.file.read fs v (offsetBytes (offsets.take i)).length (Word.big 4 o).length =
        .ok (Word.big 4 o) := GuardedFile.read_eq hv x.file hroom
    rw [hbefore, Word.length_big] at hread
    simp only [recordLen] at hread ⊢
    rw [hread, ok_bind]
    simp only [Word.signed_ofBig_big hle]
    rw [if_neg (by omega)]
    rfl

theorem offsetsAt_eq {ordinals : List Nat}
    (told : ∀ i o, offsets[i]? = some o → x.offsetAt fs i = .ok (some o))
    (inside : ∀ i ∈ ordinals, i < offsets.length) :
    x.offsetsAt fs ordinals = .ok (some (ordinals.filterMap fun i => offsets[i]?)) := by
  induction ordinals with
  | nil => rfl
  | cons i ordinals ih =>
    obtain ⟨o, ho⟩ : ∃ o, offsets[i]? = some o :=
      ⟨_, List.getElem?_eq_getElem (inside i List.mem_cons_self)⟩
    have hrest := ih fun j hj => inside j (List.mem_cons_of_mem _ hj)
    rw [offsetsAt, told i o ho, ok_bind]
    simp only [hrest, ok_bind, List.filterMap_cons_some ho]
    rfl

/-- If every ordinal leads to its offset and every offset to its key, the search gives the offsets
of the key, each once and in order. -/
theorem loadPositions_eq (hlength : x.length = keys.length)
    (hoffsets : offsets.length = keys.length)
    (told : ∀ i o, offsets[i]? = some o → x.offsetAt fs i = .ok (some o))
    (tells : KeySearch.Tells (x.loadKey fs) keys) (ordered : KeySearch.Ordered keys)
    (key : String) :
    x.loadPositions fs key =
      .ok ((KeySearch.positionsOf keys key).filterMap fun i => offsets[i]?) := by
  have inside : ∀ i ∈ KeySearch.positionsOf keys key, i < offsets.length := by
    intro i hi
    have := (List.getElem?_eq_some_iff.mp (KeySearch.mem_positionsOf.mp hi)).1
    omega
  rw [loadPositions, hlength, KeySearch.positions_eq tells ordered, ok_bind]
  simp only [offsetsAt_eq told inside, ok_bind]
  rfl

end

/-- The index and its log hold the tuples. -/
structure Holds (fs : FileSystem) (x : KeyIndex) (tuples : List Tuple) : Prop where
  index : x.file.Shows fs (FileFormat.keyIndex.magic ++
    (Segment.recordOffsets FileFormat.bodyStart tuples).flatMap (Word.big 4))
  log : x.log.file.Shows fs (FileFormat.tupleLog.magic ++ tuples.flatMap Record.stored)
  recorded : Segment.Recorded FileFormat.bodyStart tuples

namespace Holds

variable {tuples : List Tuple}

theorem length_eq (holds : Holds fs x tuples) : x.length = tuples.length := by
  rw [length_of_shows holds.index, Segment.length_recordOffsets]

theorem offsetAt_eq (holds : Holds fs x tuples) {i o : Nat}
    (ho : (Segment.recordOffsets FileFormat.bodyStart tuples)[i]? = some o) :
    x.offsetAt fs i = .ok (some o) := by
  refine offsetAt_of_shows holds.index ?_ ho
    (holds.recorded.offset_le o (List.mem_of_getElem? ho))
  have hcount := holds.recorded.length_le
  have hmax : Word.maxSigned32 = 2147483647 := rfl
  have hsigned : View.signedLimit = 9223372036854775808 := rfl
  rw [length_offsetBytes, Segment.length_recordOffsets, FileFormat.bodyStart]
  omega

/-- The record of an ordinal, found by its offset. -/
theorem exists_record (holds : Holds fs x tuples) {i o : Nat} {t : Tuple} (ht : tuples[i]? = some t)
    (ho : (Segment.recordOffsets FileFormat.bodyStart tuples)[i]? = some o) :
    x.log.tupleAt fs o = .ok (some t) ∧ x.log.keyAt fs o = .ok (some t.key) := by
  have hstorable := holds.recorded.storable t (List.mem_of_getElem? ht)
  have hle := holds.recorded.offset_le o (List.mem_of_getElem? ho)
  rw [Segment.getElem?_recordOffsets ht] at ho
  have hshows := holds.log
  rw [flatMap_at ht, ← List.append_assoc, ← List.append_assoc] at hshows
  have hbefore :
      (FileFormat.tupleLog.magic ++ (tuples.take i).flatMap Record.stored).length = o := by
    rw [List.length_append, FileFormat.length_magic]
    exact Option.some.inj ho
  have hmax : Word.maxSigned32 = 2147483647 := rfl
  have hsigned : View.signedLimit = 9223372036854775808 := rfl
  have htuple := Log.tupleAt_eq hshows hstorable.toFits (by omega)
  have hkey := Log.keyAt_eq hshows hstorable.toFits (by omega)
  rw [hbefore] at htuple hkey
  exact ⟨htuple, hkey⟩

theorem exists_offset {i : Nat} (hi : i < tuples.length) :
    ∃ o, (Segment.recordOffsets FileFormat.bodyStart tuples)[i]? = some o := by
  refine ⟨_, List.getElem?_eq_getElem ?_⟩
  rwa [Segment.length_recordOffsets]

/-- Every ordinal gives its tuple. -/
theorem tupleAt_eq (holds : Holds fs x tuples) {i : Nat} {t : Tuple} (ht : tuples[i]? = some t) :
    x.tupleAt fs i = .ok (some t) := by
  obtain ⟨o, ho⟩ := exists_offset (List.getElem?_eq_some_iff.mp ht).1
  rw [tupleAt, holds.offsetAt_eq ho, ok_bind]
  exact (holds.exists_record ht ho).1

theorem tells (holds : Holds fs x tuples) :
    KeySearch.Tells (x.loadKey fs) (tuples.map Tuple.key) := by
  intro i key hkey
  rw [List.getElem?_map] at hkey
  obtain ⟨t, ht, rfl⟩ := Option.map_eq_some_iff.mp hkey
  obtain ⟨o, ho⟩ := exists_offset (List.getElem?_eq_some_iff.mp ht).1
  rw [loadKey, holds.offsetAt_eq ho, ok_bind]
  exact (holds.exists_record ht ho).2

/-- Iteration gives all tuples, from any ordinal on. -/
theorem drain_eq (holds : Holds fs x tuples) (next : Nat) :
    x.drain fs ⟨next, tuples.length⟩ = (tuples.drop next).map .ok := by
  induction hk : tuples.length - next using Nat.strongRecOn generalizing next with
  | ind k ih =>
    rw [drain]
    by_cases hlt : next < tuples.length
    · rw [if_pos hlt, holds.tupleAt_eq (List.getElem?_eq_getElem hlt),
        List.drop_eq_getElem_cons hlt, List.map_cons,
        ← ih (tuples.length - (next + 1)) (by omega) (next + 1) rfl]
    · rw [if_neg hlt, List.drop_eq_nil_of_le (by omega)]
      rfl

theorem drain_cursor (holds : Holds fs x tuples) :
    x.drain fs x.cursor = tuples.map .ok := by
  rw [cursor, holds.length_eq, holds.drain_eq 0, List.drop_zero]

/-- A search gives the offsets of the tuples with the key. -/
theorem loadPositions_eq (holds : Holds fs x tuples)
    (ordered : KeySearch.Ordered (tuples.map Tuple.key)) (key : String) :
    x.loadPositions fs key = .ok ((KeySearch.positionsOf (tuples.map Tuple.key) key).filterMap
      fun i => (Segment.recordOffsets FileFormat.bodyStart tuples)[i]?) := by
  refine KeyIndex.loadPositions_eq ?_ ?_ (fun i o ho => holds.offsetAt_eq ho) holds.tells ordered
    key
  · rw [holds.length_eq, List.length_map]
  · rw [Segment.length_recordOffsets, List.length_map]

end Holds

end KeyIndex

end SpatialSegment
