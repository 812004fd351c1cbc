import SpatialSegment.Tuple.Record
import SpatialSegment.Proofs.Box.Stored
import SpatialSegment.Proofs.Results

/-!
# Records are read back

The record of a tuple is its header, key, box and payload one behind the other. Wherever a record
stands in a buffer, reading from its start gives the tuple and the end of the record, and reading
the key alone needs no more than header and key. A record with an empty key is read as well, though
no tuple is given one.
-/

namespace SpatialSegment

namespace Record

/-- The header of the record of a tuple. -/
def header (t : Tuple) : Bytes :=
  Word.big 2 (Text.bytes t.key).length ++ Word.big 4 t.box.storedLen ++
    Word.big 4 t.payload.length ++ Word.big 8 t.version.toUInt64.toNat ++
    Word.big 8 t.received.toUInt64.toNat

/-- The record of a tuple. -/
def stored (t : Tuple) : Bytes :=
  header t ++ Text.bytes t.key ++ t.box.toBytes ++ t.payload

/-- A tuple whose lengths the header holds. -/
structure Fits (t : Tuple) : Prop where
  key_le : (Text.bytes t.key).length ≤ Word.maxSigned16
  box_le : t.box.storedLen ≤ Word.maxSigned32
  payload_le : t.payload.length ≤ Word.maxSigned32

/-- A tuple that is given a record: its lengths fit, and its key is not empty. -/
structure Storable (t : Tuple) : Prop extends Fits t where
  key_pos : 0 < (Text.bytes t.key).length

variable {t : Tuple}

@[simp] theorem length_header (t : Tuple) : (header t).length = headerLen := by
  simp only [header, List.length_append, Word.length_big]
  rfl

@[simp] theorem length_stored (t : Tuple) : (stored t).length = storedLen t := by
  simp only [stored, List.length_append, length_header, Box.length_toBytes, storedLen]

theorem lengthWord_eq_ok_iff {field : String} {n : Nat} {bs : Bytes} :
    lengthWord field n = .ok bs ↔ n ≤ Word.maxSigned32 ∧ bs = Word.big 4 n := by
  rw [lengthWord]
  by_cases h : n ≤ Word.maxSigned32
  · simp [h, eq_comm]
  · simp [h]

/-- A tuple has a record exactly when its lengths fit, and there is only one. -/
theorem encode_eq_ok_iff {bs : Bytes} : encode t = .ok bs ↔ Storable t ∧ bs = stored t := by
  constructor
  · intro h
    unfold encode at h
    by_cases hempty : Text.bytes t.key = []
    · rw [if_pos hempty] at h
      cases h
    · rw [if_neg hempty] at h
      by_cases hlong : Word.maxSigned16 < (Text.bytes t.key).length
      · simp only [if_pos hlong] at h
        cases h
      · simp only [if_neg hlong] at h
        obtain ⟨boxLen, hbox, h⟩ := bind_eq_ok.mp h
        obtain ⟨payloadLen, hpayload, h⟩ := bind_eq_ok.mp h
        obtain ⟨hboxLe, rfl⟩ := lengthWord_eq_ok_iff.mp hbox
        obtain ⟨hpayloadLe, rfl⟩ := lengthWord_eq_ok_iff.mp hpayload
        cases h
        have hpos := List.length_pos_iff.mpr hempty
        exact ⟨⟨⟨by omega, hboxLe, hpayloadLe⟩, hpos⟩, by simp only [stored, header]⟩
  · rintro ⟨storable, rfl⟩
    have hempty : Text.bytes t.key ≠ [] := List.ne_nil_of_length_pos storable.key_pos
    have hlong : ¬ Word.maxSigned16 < (Text.bytes t.key).length := Nat.not_lt.mpr storable.key_le
    rw [encode, if_neg hempty]
    simp only [if_neg hlong, lengthWord, if_pos storable.box_le, if_pos storable.payload_le]
    rfl

/-! ## Reading -/

theorem take_append (before middle after : Bytes) :
    take (before ++ middle ++ after) before.length middle.length = .ok middle := by
  rw [take, Bytes.slice?_append rfl rfl]

theorem readLength_big {field : String} {width n : Nat} (h : 2 * n < Word.limit width) :
    readLength field (Word.big width n) = .ok n := by
  rw [readLength, Word.length_big, Word.ofBig_big (by omega), Word.signed_of_small h]
  simp

theorem readTime_big (time : Int64) : readTime (Word.big 8 time.toUInt64.toNat) = time := by
  rw [readTime, Word.ofBig_big time.toUInt64.toNat_lt, UInt64.ofNat_toNat]
  exact Int64.toInt64_toUInt64 time

theorem readKey_bytes (key : String) : readKey (Text.bytes key) = .ok key := by
  rw [readKey, Text.ofBytes?_bytes]

/-- The five words of a header, in order. -/
theorem words_header (t : Tuple) :
    (header t).take 2 = Word.big 2 (Text.bytes t.key).length ∧
      ((header t).drop 2).take 4 = Word.big 4 t.box.storedLen ∧
      ((header t).drop 6).take 4 = Word.big 4 t.payload.length ∧
      ((header t).drop 10).take 8 = Word.big 8 t.version.toUInt64.toNat ∧
      ((header t).drop 18).take 8 = Word.big 8 t.received.toUInt64.toNat := by
  refine ⟨?_, ?_, ?_, ?_, ?_⟩ <;>
    simp [header, List.drop_append, Word.length_big, List.take_of_length_le,
      List.drop_of_length_le]

/-- The lengths and times that the header of a tuple tells. -/
def headerOf (t : Tuple) : Header where
  keyLen := (Text.bytes t.key).length
  boxLen := t.box.storedLen
  payloadLen := t.payload.length
  version := t.version
  received := t.received

theorem read_header (fits : Fits t) (before after : Bytes) :
    Header.read (before ++ header t ++ after) before.length = .ok (headerOf t) := by
  obtain ⟨hkey, hbox, hpayload, hversion, hreceived⟩ := words_header t
  have htake := take_append before (header t) after
  rw [length_header] at htake
  have hlimit2 : Word.limit 2 = 65536 := rfl
  have hlimit4 : Word.limit 4 = 4294967296 := rfl
  have hmax16 : Word.maxSigned16 = 32767 := rfl
  have hmax32 : Word.maxSigned32 = 2147483647 := rfl
  have hkeyLe := fits.key_le
  have hboxLe := fits.box_le
  have hpayloadLe := fits.payload_le
  rw [Header.read, htake, ok_bind, hkey, readLength_big (by omega), ok_bind, hbox,
    readLength_big (by omega), ok_bind, hpayload, readLength_big (by omega), ok_bind, hversion,
    hreceived, readTime_big, readTime_big]
  rfl

theorem announcedLen_header (fits : Fits t) :
    announcedLen (header t) = .ok (storedLen t) := by
  have hread := read_header fits [] []
  rw [List.nil_append, List.append_nil, List.length_nil] at hread
  rw [announcedLen, hread]
  rfl

/-- Header, key, box and payload of the tuple stand in the buffer, one behind the other. -/
structure Stands (buf : Bytes) (pos : Nat) (t : Tuple) : Prop where
  header : Header.read buf pos = .ok (headerOf t)
  key : take buf (pos + headerLen) (Text.bytes t.key).length = .ok (Text.bytes t.key)
  box : take buf (pos + headerLen + (Text.bytes t.key).length) t.box.storedLen =
    .ok t.box.toBytes
  payload : take buf (pos + headerLen + (Text.bytes t.key).length + t.box.storedLen)
    t.payload.length = .ok t.payload

/-- The tuple is read where it stands. -/
theorem Stands.decode_eq {buf : Bytes} {pos : Nat} (stands : Stands buf pos t) :
    decode buf pos = .ok (t, pos + storedLen t) := by
  rw [decode, stands.header, ok_bind]
  simp only [headerOf, stands.key, stands.box, stands.payload, ok_bind, readKey_bytes,
    Box.ofBytes_toBytes]
  have hstop : pos + headerLen + (Text.bytes t.key).length + t.box.storedLen + t.payload.length =
      pos + storedLen t := by
    rw [storedLen]
    omega
  rw [hstop]
  rfl

theorem stands_stored (fits : Fits t) (before after : Bytes) :
    Stands (before ++ stored t ++ after) before.length t := by
  constructor
  · have h := read_header fits before
      (Text.bytes t.key ++ t.box.toBytes ++ t.payload ++ after)
    simpa only [stored, List.append_assoc] using h
  · have h := take_append (before ++ header t) (Text.bytes t.key)
      (t.box.toBytes ++ t.payload ++ after)
    simpa only [stored, List.append_assoc, List.length_append, length_header] using h
  · have h := take_append (before ++ header t ++ Text.bytes t.key) t.box.toBytes
      (t.payload ++ after)
    simpa only [stored, List.append_assoc, List.length_append, length_header,
      Box.length_toBytes, Nat.add_assoc] using h
  · have h := take_append (before ++ header t ++ Text.bytes t.key ++ t.box.toBytes) t.payload after
    simpa only [stored, List.append_assoc, List.length_append, length_header,
      Box.length_toBytes, Nat.add_assoc] using h

/-- A record is read back where it stands in a buffer. -/
theorem decode_stored (fits : Fits t) (before after : Bytes) :
    decode (before ++ stored t ++ after) before.length =
      .ok (t, before.length + storedLen t) :=
  (stands_stored fits before after).decode_eq

/-- The key is read back from header and key. -/
theorem peekKey_header (fits : Fits t) (before after : Bytes) :
    peekKey (before ++ (header t ++ Text.bytes t.key) ++ after) before.length =
      .ok (t.key, before.length + headerLen + (Text.bytes t.key).length) := by
  have hwords : header t = Word.big 2 (Text.bytes t.key).length ++ (header t).drop 2 := by
    rw [← (words_header t).1, List.take_append_drop]
  have hlen : take (before ++ (header t ++ Text.bytes t.key) ++ after) before.length 2 =
      .ok (Word.big 2 (Text.bytes t.key).length) := by
    have h := take_append before (Word.big 2 (Text.bytes t.key).length)
      ((header t).drop 2 ++ Text.bytes t.key ++ after)
    rw [Word.length_big] at h
    rw [hwords]
    simpa only [List.append_assoc] using h
  have hkey : take (before ++ (header t ++ Text.bytes t.key) ++ after) (before.length + headerLen)
      (Text.bytes t.key).length = .ok (Text.bytes t.key) := by
    have h := take_append (before ++ header t) (Text.bytes t.key) after
    simpa only [List.append_assoc, List.length_append, length_header] using h
  have hlimit2 : Word.limit 2 = 65536 := rfl
  have hmax16 : Word.maxSigned16 = 32767 := rfl
  have hkeyLe := fits.key_le
  rw [peekKey, hlen, ok_bind, readLength_big (by omega), ok_bind]
  simp only [hkey, ok_bind, readKey_bytes]
  rfl

end Record

end SpatialSegment
