import SpatialSegment.Proofs.Tuple.Record

/-!
# What is read as a record

A tuple is read from a position exactly when its record stands there, with a key that may be empty.
From a buffer that ends earlier it is read as long as the whole record is there, and after that the
record is reported as too short.
-/

namespace SpatialSegment

namespace Record

section

variable {buf lost bs : Bytes} {pos len : Nat}

theorem take_eq_ok_iff :
    take buf pos len = .ok bs ↔ pos + len ≤ buf.length ∧ (buf.drop pos).take len = bs := by
  rw [take, ← Bytes.slice?_eq_some_iff]
  cases buf.slice? pos len with
  | none => constructor <;> intro h <;> cases h
  | some found => simp only [Except.ok.injEq, Option.some.injEq]

theorem length_of_take (h : take buf pos len = .ok bs) : bs.length = len := by
  obtain ⟨hle, rfl⟩ := take_eq_ok_iff.mp h
  rw [List.length_take, List.length_drop]
  omega

theorem take_of_short (h : buf.length < pos + len) :
    take buf pos len = .error (.shortRecord len pos buf.length) := by
  rw [take, Bytes.slice?, if_neg (Nat.not_le.mpr h)]

/-- What is within the part of a buffer that is left is taken from it. -/
theorem take_of_append (h : take (buf ++ lost) pos len = .ok bs) (inside : pos + len ≤ buf.length) :
    take buf pos len = .ok bs := by
  obtain ⟨-, rfl⟩ := take_eq_ok_iff.mp h
  refine take_eq_ok_iff.mpr ⟨inside, ?_⟩
  rw [List.drop_append_of_le_length (by omega),
    List.take_append_of_le_length (by rw [List.length_drop]; omega)]

/-- What is taken next is taken together with what was taken before. -/
theorem take_join {bs' : Bytes} {len' : Nat} (h : take buf pos len = .ok bs)
    (h' : take buf (pos + len) len' = .ok bs') : take buf pos (len + len') = .ok (bs ++ bs') := by
  obtain ⟨-, rfl⟩ := take_eq_ok_iff.mp h
  obtain ⟨hle, rfl⟩ := take_eq_ok_iff.mp h'
  refine take_eq_ok_iff.mpr ⟨by omega, ?_⟩
  rw [List.take_add, List.drop_drop]

/-- A length that is read is the word of itself. -/
theorem big_of_readLength {field : String} {n : Nat} (h : readLength field bs = .ok n) :
    bs = Word.big bs.length n ∧ 2 * n < Word.limit bs.length := by
  have hlt := Word.ofBig_lt bs
  have hword := Word.big_ofBig bs
  rw [readLength, Word.signed] at h
  by_cases hsmall : 2 * Word.ofBig bs < Word.limit bs.length
  · rw [if_pos hsmall, if_pos (by omega), Int.toNat_natCast] at h
    cases h
    exact ⟨hword.symm, hsmall⟩
  · rw [if_neg hsmall, if_neg (by omega)] at h
    cases h

theorem big_of_readTime (h : bs.length = 8) :
    Word.big 8 (readTime bs).toUInt64.toNat = bs := by
  have hlimit : Word.limit 8 = 2 ^ 64 := rfl
  have hlt := Word.ofBig_lt bs
  rw [h, hlimit] at hlt
  have hnat : (readTime bs).toUInt64.toNat = Word.ofBig bs := by
    rw [readTime, UInt64.toUInt64_toInt64, UInt64.toNat_ofNat', Nat.mod_eq_of_lt hlt]
  rw [hnat, ← h, Word.big_ofBig]

theorem readKey_eq_ok_iff {key : String} : readKey bs = .ok key ↔ bs = Text.bytes key := by
  rw [readKey, ← Text.ofBytes?_eq_some_iff]
  cases Text.ofBytes? bs with
  | none => constructor <;> intro h <;> cases h
  | some found => simp only [Except.ok.injEq, Option.some.injEq]

end

section

variable {buf lost : Bytes} {pos stop : Nat} {t : Tuple}

theorem Stands.of_decode (h : decode buf pos = .ok (t, stop)) :
    Stands buf pos t ∧ stop = pos + storedLen t := by
  obtain ⟨header, hheader, h⟩ := bind_eq_ok.mp h
  obtain ⟨key, hkey, h⟩ := bind_eq_ok.mp h
  obtain ⟨keyBytes, hkeyBytes, hkey⟩ := bind_eq_ok.mp hkey
  obtain ⟨box, hbox, h⟩ := bind_eq_ok.mp h
  obtain ⟨boxBytes, hboxBytes, hbox⟩ := bind_eq_ok.mp hbox
  obtain ⟨payload, hpayload, h⟩ := bind_eq_ok.mp h
  cases h
  obtain rfl := readKey_eq_ok_iff.mp hkey
  obtain rfl := Box.toBytes_of_ofBytes hbox
  -- The lengths of what was read are those that the header tells.
  have hkeyLen := length_of_take hkeyBytes
  have hboxLen := length_of_take hboxBytes
  have hpayloadLen := length_of_take hpayload
  rw [Box.length_toBytes] at hboxLen
  rw [← hkeyLen] at hkeyBytes hboxBytes hpayload
  rw [← hboxLen] at hboxBytes hpayload
  rw [← hpayloadLen] at hpayload
  refine ⟨⟨?_, hkeyBytes, hboxBytes, hpayload⟩, ?_⟩
  · rw [hheader, headerOf, hkeyLen, hboxLen, hpayloadLen]
  · rw [storedLen, hkeyLen, hboxLen, hpayloadLen]
    omega

/-- The fields of a header one behind the other. -/
theorem fields_append (raw : Bytes) :
    raw.take 2 ++ (raw.drop 2).take 4 ++ (raw.drop 6).take 4 ++ (raw.drop 10).take 8 ++
      raw.drop 18 = raw := by
  have hkey : raw.take 2 ++ (raw.drop 2).take 4 = raw.take 6 := List.take_add.symm
  have hbox : raw.take 6 ++ (raw.drop 6).take 4 = raw.take 10 := List.take_add.symm
  have hpayload : raw.take 10 ++ (raw.drop 10).take 8 = raw.take 18 := List.take_add.symm
  rw [hkey, hbox, hpayload, List.take_append_drop]

theorem length_field {raw : Bytes} (h : raw.length = headerLen) (start len : Nat)
    (inside : start + len ≤ headerLen) : ((raw.drop start).take len).length = len := by
  rw [List.length_take, List.length_drop]
  omega

/-- The lengths in a header are from words of two and four bytes, of which they take one half. -/
theorem lengths_lt_of_read {fields : Header} (h : Header.read buf pos = .ok fields) :
    2 * fields.keyLen < Word.limit 2 ∧ 2 * fields.boxLen < Word.limit 4 ∧
      2 * fields.payloadLen < Word.limit 4 := by
  obtain ⟨raw, hraw, h⟩ := bind_eq_ok.mp h
  obtain ⟨keyLen, hkey, h⟩ := bind_eq_ok.mp h
  obtain ⟨boxLen, hbox, h⟩ := bind_eq_ok.mp h
  obtain ⟨payloadLen, hpayload, h⟩ := bind_eq_ok.mp h
  cases h
  have hlen := length_of_take hraw
  have hkeyLen : (raw.take 2).length = 2 := length_field hlen 0 2 (by decide)
  have hkeyLt := (big_of_readLength hkey).2
  have hboxLt := (big_of_readLength hbox).2
  have hpayloadLt := (big_of_readLength hpayload).2
  rw [hkeyLen] at hkeyLt
  rw [length_field hlen 2 4 (by decide)] at hboxLt
  rw [length_field hlen 6 4 (by decide)] at hpayloadLt
  exact ⟨hkeyLt, hboxLt, hpayloadLt⟩

/-- The header that is read is the one of a tuple whose lengths fit. -/
theorem header_of_read (h : Header.read buf pos = .ok (headerOf t)) :
    take buf pos headerLen = .ok (header t) ∧ Fits t := by
  obtain ⟨hkeyLt, hboxLt, hpayloadLt⟩ := lengths_lt_of_read h
  simp only [headerOf] at hkeyLt hboxLt hpayloadLt
  obtain ⟨raw, hraw, h⟩ := bind_eq_ok.mp h
  obtain ⟨keyLen, hkey, h⟩ := bind_eq_ok.mp h
  obtain ⟨boxLen, hbox, h⟩ := bind_eq_ok.mp h
  obtain ⟨payloadLen, hpayload, h⟩ := bind_eq_ok.mp h
  obtain ⟨rfl, rfl, rfl, hversion, hreceived⟩ := Header.mk.inj (Except.ok.inj h)
  have hlen := length_of_take hraw
  -- The lengths are told by words that are not negative.
  have hkeyLen : (raw.take 2).length = 2 := length_field hlen 0 2 (by decide)
  have hkeyWord := (big_of_readLength hkey).1
  have hboxWord := (big_of_readLength hbox).1
  have hpayloadWord := (big_of_readLength hpayload).1
  rw [hkeyLen] at hkeyWord
  rw [length_field hlen 2 4 (by decide)] at hboxWord
  rw [length_field hlen 6 4 (by decide)] at hpayloadWord
  have hversionWord := big_of_readTime (length_field hlen 10 8 (by decide))
  have hreceivedWord := big_of_readTime (length_field hlen 18 8 (by decide))
  have hlast : (raw.drop 18).take 8 = raw.drop 18 :=
    List.take_of_length_le (by rw [List.length_drop, hlen]; decide)
  rw [hversion] at hversionWord
  rw [hreceived, hlast] at hreceivedWord
  constructor
  · rw [hraw, header, ← hkeyWord, ← hboxWord, ← hpayloadWord, hversionWord, hreceivedWord,
      fields_append]
  · have hlimit2 : Word.limit 2 = 65536 := rfl
    have hlimit4 : Word.limit 4 = 4294967296 := rfl
    have hmax16 : Word.maxSigned16 = 32767 := rfl
    have hmax32 : Word.maxSigned32 = 2147483647 := rfl
    constructor <;> omega

/-- A tuple is read exactly where its record stands, and the position behind it is that of the end
of the record. -/
theorem decode_eq_ok_iff :
    decode buf pos = .ok (t, stop) ↔
      ∃ before after, buf = before ++ stored t ++ after ∧ before.length = pos ∧ Fits t ∧
        stop = pos + storedLen t := by
  constructor
  · intro h
    obtain ⟨stands, hstop⟩ := Stands.of_decode h
    obtain ⟨hheader, fits⟩ := header_of_read stands.header
    have hkey := take_join hheader stands.key
    have hbox := take_join hkey (by rw [← Nat.add_assoc]; exact stands.box)
    have hpayload := take_join hbox (by rw [← Nat.add_assoc, ← Nat.add_assoc]; exact stands.payload)
    obtain ⟨hle, htake⟩ := take_eq_ok_iff.mp hpayload
    refine ⟨buf.take pos, (buf.drop pos).drop (storedLen t), ?_, ?_, fits, hstop⟩
    · rw [stored, ← htake, List.append_assoc]
      change buf = _ ++ ((buf.drop pos).take (storedLen t) ++ _)
      rw [List.take_append_drop, List.take_append_drop]
    · rw [List.length_take]
      omega
  · rintro ⟨before, after, rfl, rfl, fits, rfl⟩
    exact decode_stored fits before after

/-! ## Buffers that end earlier -/

theorem Header.read_of_short (h : buf.length < pos + headerLen) :
    Header.read buf pos = .error (.shortRecord headerLen pos buf.length) := by
  rw [Header.read, take_of_short h]
  rfl

theorem Header.read_of_append {header : Header} (h : Header.read (buf ++ lost) pos = .ok header)
    (inside : pos + headerLen ≤ buf.length) : Header.read buf pos = .ok header := by
  obtain ⟨raw, hraw, h⟩ := bind_eq_ok.mp h
  rw [Header.read, take_of_append hraw inside]
  exact h

/-- A record that is still there as a whole is read. -/
theorem Stands.of_append (stands : Stands (buf ++ lost) pos t)
    (inside : pos + storedLen t ≤ buf.length) : Stands buf pos t := by
  rw [storedLen] at inside
  constructor
  · exact Header.read_of_append stands.header (by omega)
  · exact take_of_append stands.key (by omega)
  · exact take_of_append stands.box (by omega)
  · exact take_of_append stands.payload (by omega)

/-- A record that is cut off is reported as too short, whichever of its fields is the first one that
is not there as a whole. -/
theorem Stands.decode_cut (stands : Stands (buf ++ lost) pos t)
    (short : buf.length < pos + storedLen t) :
    ∃ need position, decode buf pos = .error (.shortRecord need position buf.length) := by
  rw [storedLen] at short
  by_cases hheader : pos + headerLen ≤ buf.length
  · rw [decode, Header.read_of_append stands.header hheader, ok_bind]
    simp only [headerOf]
    by_cases hkey : pos + headerLen + (Text.bytes t.key).length ≤ buf.length
    · simp only [take_of_append stands.key hkey, ok_bind, readKey_bytes]
      by_cases hbox : pos + headerLen + (Text.bytes t.key).length + t.box.storedLen ≤ buf.length
      · simp only [take_of_append stands.box hbox, ok_bind, Box.ofBytes_toBytes]
        rw [take_of_short (by omega)]
        exact ⟨_, _, rfl⟩
      · rw [take_of_short (by omega)]
        exact ⟨_, _, rfl⟩
    · rw [take_of_short (by omega)]
      exact ⟨_, _, rfl⟩
  · rw [decode, Header.read_of_short (by omega)]
    exact ⟨_, _, rfl⟩

end

end Record

end SpatialSegment
