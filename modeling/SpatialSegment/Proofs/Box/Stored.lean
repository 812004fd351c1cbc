import SpatialSegment.Box.Stored
import SpatialSegment.Proofs.Lists
import SpatialSegment.Proofs.Results
import SpatialSegment.Proofs.Word

/-!
# Boxes are read back

The bytes of a box are those of its ends, so reading gives the same ends, bit by bit, and they are
in order because those of the box were. No other bytes are read as the box.
-/

namespace SpatialSegment

namespace Box

theorem coords_cons (i : Interval) (is : List Interval) :
    (Box.mk (i :: is)).coords = i.lo :: i.hi :: (Box.mk is).coords := rfl

theorem length_coords (b : Box) : b.coords.length = 2 * b.dimension := by
  obtain ⟨is⟩ := b
  induction is with
  | nil => rfl
  | cons i is ih =>
    simp only [dimension] at ih ⊢
    rw [coords_cons, List.length_cons, List.length_cons, ih, List.length_cons]
    omega

theorem pairUp_coords (is : List Interval) (dimension : Nat) :
    pairUp dimension (Box.mk is).coords = .ok is := by
  induction is generalizing dimension with
  | nil => rfl
  | cons i is ih =>
    rw [coords_cons, pairUp, dif_pos i.lo_le_hi, ih]
    rfl

theorem ofCoords_coords (b : Box) : ofCoords b.coords = .ok b := by
  have heven : b.coords.length % 2 = 0 := by
    rw [length_coords]
    omega
  rw [ofCoords, heven, if_neg (by simp), pairUp_coords]
  rfl

theorem words_append {word : Bytes} (h : word.length = 8) (rest : Bytes) :
    words (word ++ rest) = ⟨UInt64.ofNat (Word.ofBig word)⟩ :: words rest := by
  match word, h with
  | [b0, b1, b2, b3, b4, b5, b6, b7], _ => rfl

theorem words_append_big (c : Coord) (rest : Bytes) :
    words (Word.big 8 c.bits.toNat ++ rest) = c :: words rest := by
  rw [words_append (Word.length_big 8 _), Word.ofBig_big c.bits.toNat_lt, UInt64.ofNat_toNat]

theorem words_toBytes (b : Box) : words b.toBytes = b.coords := by
  rw [toBytes]
  induction b.coords with
  | nil => rfl
  | cons c cs ih => rw [List.flatMap_cons, words_append_big, ih]

@[simp] theorem length_toBytes (b : Box) : b.toBytes.length = b.storedLen := by
  have hword : ∀ c : Coord, (Word.big 8 c.bits.toNat).length = 8 := fun c => Word.length_big 8 _
  rw [toBytes, length_flatMap_const hword, length_coords, storedLen, dimension]
  omega

/-- A box is read back from its bytes. -/
theorem ofBytes_toBytes (b : Box) : ofBytes b.toBytes = .ok b := by
  have hwhole : b.storedLen % 16 = 0 := by
    rw [storedLen]
    omega
  rw [ofBytes, length_toBytes, hwhole, if_neg (by simp), words_toBytes, ofCoords_coords]
  rfl

/-! ## What bytes a box can have been read from -/

theorem coords_of_pairUp {cs : List Coord} {dimension : Nat} {is : List Interval}
    (even : cs.length % 2 = 0) (h : pairUp dimension cs = .ok is) : (Box.mk is).coords = cs := by
  fun_induction pairUp dimension cs generalizing is with
  | case1 dimension lo hi rest hle ih =>
    cases hrest : pairUp (dimension + 1) rest with
    | error cause =>
      rw [hrest] at h
      cases h
    | ok is' =>
      rw [hrest] at h
      cases h
      have heven : rest.length % 2 = 0 := by
        rw [List.length_cons, List.length_cons] at even
        omega
      rw [coords_cons, ih heven hrest]
  | case2 => cases h
  | case3 cs dimension hshort =>
    cases h
    match cs, even, hshort with
    | [], _, _ => rfl
    | [c], even, _ => cases even
    | lo :: hi :: rest, _, hshort => exact (hshort lo hi rest rfl).elim

/-- The ends of a box are the numbers that it was made of. -/
theorem coords_of_ofCoords {cs : List Coord} {b : Box} (h : ofCoords cs = .ok b) :
    b.coords = cs := by
  rw [ofCoords] at h
  by_cases heven : cs.length % 2 = 0
  · rw [if_neg (not_not_intro heven)] at h
    cases hpairs : pairUp 0 cs with
    | error cause =>
      rw [hpairs] at h
      cases h
    | ok is =>
      rw [hpairs] at h
      cases h
      exact coords_of_pairUp heven hpairs
  · rw [if_pos heven] at h
    cases h

theorem flatMap_words {count : Nat} {bs : Bytes} (h : bs.length = count * 8) :
    (words bs).flatMap (fun c => Word.big 8 c.bits.toNat) = bs := by
  induction count generalizing bs with
  | zero =>
    obtain rfl := List.eq_nil_of_length_eq_zero (h.trans (Nat.zero_mul 8))
    rfl
  | succ count ih =>
    have hword : (bs.take 8).length = 8 := by
      rw [List.length_take]
      omega
    have hrest : (bs.drop 8).length = count * 8 := by
      rw [List.length_drop]
      omega
    have hlt := Word.ofBig_lt (bs.take 8)
    rw [hword] at hlt
    have hbig := Word.big_ofBig (bs.take 8)
    rw [hword] at hbig
    have hsplit := List.take_append_drop 8 bs
    rw [← hsplit, words_append hword, List.flatMap_cons, ih hrest,
      UInt64.toNat_ofNat_of_lt' hlt, hbig]

/-- The bytes of a box are those that it was read from. -/
theorem toBytes_of_ofBytes {bs : Bytes} {b : Box} (h : ofBytes bs = .ok b) : b.toBytes = bs := by
  rw [ofBytes] at h
  by_cases hwhole : bs.length % 16 = 0
  · rw [if_neg (not_not_intro hwhole), mapError_eq_ok] at h
    rw [toBytes, coords_of_ofCoords h]
    have hlen : bs.length = bs.length / 8 * 8 := by omega
    exact flatMap_words hlen
  · rw [if_pos hwhole] at h
    cases h

end Box

end SpatialSegment
