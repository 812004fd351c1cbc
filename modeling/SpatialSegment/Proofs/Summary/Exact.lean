import SpatialSegment.Proofs.Summary

/-!
# Only their own bytes are read as summaries

Reading takes words off the front, so bytes that end early end inside a word or right before one,
and reading stops there. `CutShort` says that of a reader and of the bytes it is meant for; taking
one more word off first keeps it true. Conversely a word of eight bytes has one reading only, so
what reading accepts starts with the bytes that writing the summary gives.
-/

namespace SpatialSegment

namespace Summary

variable {α β : Type} {s : Summary}

/-! ## Bytes that end early -/

/-- The reader refuses what is left of the bytes when some at the end are missing, and tells how
many it takes to complete the word that is then the last. -/
def CutShort (reader : Bytes → Except SummaryFault α) (bytes : Bytes) : Prop :=
  ∀ p, p <+: bytes → p ≠ bytes → reader p = .error (.cutOff (8 - p.length % 8))

theorem CutShort.nil (reader : Bytes → Except SummaryFault α) : CutShort reader [] := by
  intro p hp hne
  exact absurd (List.prefix_nil.mp hp) hne

theorem CutShort.bind {reader : Bytes → Except SummaryFault α} {bytes : Bytes}
    (h : CutShort reader bytes) (next : α → Except SummaryFault β) :
    CutShort (fun bs => reader bs >>= next) bytes := by
  intro p hp hne
  simp only [h p hp hne]
  rfl

theorem readWord_of_short {p : Bytes} (h : p.length < 8) :
    readWord p = .error (.cutOff (8 - p.length)) := by
  have hhead : (p.take 8).length ≠ 8 := by
    rw [List.length_take]
    omega
  simp only [readWord, Bytes.split?, if_neg hhead]

/-- A reader that takes a word off before it goes on is refused within the word or after it. -/
theorem CutShort.word (word : UInt64) {next : UInt64 × Bytes → Except SummaryFault α}
    {bytes : Bytes} (h : CutShort (fun rest => next (word, rest)) bytes) :
    CutShort (fun bs => readWord bs >>= next) (Word.little 8 word.toNat ++ bytes) := by
  intro p hp hne
  have hword : (Word.little 8 word.toNat).length = 8 := Word.length_little 8 _
  rcases Nat.lt_or_ge p.length 8 with hshort | hlong
  · simp only [readWord_of_short hshort, Nat.mod_eq_of_lt hshort]
    rfl
  · -- the word is there as a whole, so the bytes end early in what follows it
    have hbefore : Word.little 8 word.toNat <+: p :=
      List.prefix_of_prefix_length_le (List.prefix_append _ _) hp (by omega)
    obtain ⟨rest, rfl⟩ := hbefore
    have hrest : rest <+: bytes := (List.prefix_append_right_inj _).mp hp
    have hrest_ne : rest ≠ bytes := by
      rintro rfl
      exact hne rfl
    have hmod : (Word.little 8 word.toNat ++ rest).length % 8 = rest.length % 8 := by
      rw [List.length_append, hword]
      omega
    simp only [readWord_little, ok_bind, hmod]
    exact h rest hrest hrest_ne

theorem cutShort_readCoords (coords : List Coord) :
    CutShort (readCoords coords.length) (coords.flatMap fun c => Word.little 8 c.bits.toNat) := by
  induction coords with
  | nil => exact CutShort.nil _
  | cons c coords ih => exact CutShort.word c.bits (ih.bind _)

theorem toBytes_eq (h : s.box.coords.length < Word.limit 8) : s.toBytes =
    Word.little 8 s.tuples.toNat ++ (Word.little 8 s.oldestVersion.toUInt64.toNat ++
      (Word.little 8 s.newestVersion.toUInt64.toNat ++
        (Word.little 8 s.newestReceived.toUInt64.toNat ++
          (Word.little 8 (UInt64.ofNat s.box.coords.length).toNat ++
            s.box.coords.flatMap fun c => Word.little 8 c.bits.toNat)))) := by
  simp only [toBytes, List.append_assoc, UInt64.toNat_ofNat_of_lt' h]

theorem cutShort_read (h : s.box.coords.length < Word.limit 8) : CutShort read s.toBytes := by
  have hcoords : CutShort (readCoords (UInt64.ofNat s.box.coords.length).toNat)
      (s.box.coords.flatMap fun c => Word.little 8 c.bits.toNat) := by
    rw [UInt64.toNat_ofNat_of_lt' h]
    exact cutShort_readCoords s.box.coords
  rw [toBytes_eq h]
  apply CutShort.word
  apply CutShort.word
  apply CutShort.word
  apply CutShort.word
  apply CutShort.word
  exact hcoords.bind _

theorem ofBytes_of_cut (h : s.box.coords.length < Word.limit 8) {p : Bytes} (hp : p <+: s.toBytes)
    (hne : p ≠ s.toBytes) : ofBytes p = .error (.summary (.cutOff (8 - p.length % 8))) := by
  rw [ofBytes, cutShort_read h p hp hne]
  rfl

/-! ## Bytes that are accepted -/

theorem readWord_eq_ok_iff {bs rest : Bytes} {word : UInt64} :
    readWord bs = .ok (word, rest) ↔ bs = Word.little 8 word.toNat ++ rest := by
  constructor
  · intro h
    rw [readWord] at h
    cases hsplit : Bytes.split? 8 bs with
    | none =>
      rw [hsplit] at h
      cases h
    | some parts =>
      obtain ⟨head, rest'⟩ := parts
      rw [hsplit] at h
      cases h
      obtain ⟨rfl, hlen⟩ := Bytes.split?_eq_some_iff.mp hsplit
      rw [UInt64.toNat_ofNat_of_lt' (Word.ofLittle_lt hlen), Word.little_ofLittle hlen]
  · rintro rfl
    exact readWord_little word rest

theorem readCoords_eq_ok_iff {count : Nat} {bs rest : Bytes} {coords : List Coord} :
    readCoords count bs = .ok (coords, rest) ↔
      coords.length = count ∧
        bs = (coords.flatMap fun c => Word.little 8 c.bits.toNat) ++ rest := by
  constructor
  · intro h
    induction count generalizing bs coords with
    | zero =>
      cases h
      exact ⟨rfl, rfl⟩
    | succ count ih =>
      rw [readCoords] at h
      obtain ⟨⟨bits, rest'⟩, hword, h⟩ := bind_eq_ok.mp h
      obtain ⟨⟨coords', rest''⟩, hcoords, h⟩ := bind_eq_ok.mp h
      cases h
      obtain rfl := readWord_eq_ok_iff.mp hword
      obtain ⟨rfl, rfl⟩ := ih hcoords
      exact ⟨rfl, by rw [List.flatMap_cons, List.append_assoc]⟩
  · rintro ⟨rfl, rfl⟩
    exact readCoords_little coords rest

/-- What is accepted starts with the bytes of the summary read. -/
theorem of_ofBytes {bs : Bytes} (h : ofBytes bs = .ok s) :
    s.box.coords.length < Word.limit 8 ∧ s.toBytes <+: bs := by
  rw [ofBytes, mapError_eq_ok, read] at h
  obtain ⟨⟨tuples, bs₁⟩, htuples, h⟩ := bind_eq_ok.mp h
  obtain ⟨⟨oldest, bs₂⟩, holdest, h⟩ := bind_eq_ok.mp h
  obtain ⟨⟨newest, bs₃⟩, hnewest, h⟩ := bind_eq_ok.mp h
  obtain ⟨⟨received, bs₄⟩, hreceived, h⟩ := bind_eq_ok.mp h
  obtain ⟨⟨count, bs₅⟩, hcount, h⟩ := bind_eq_ok.mp h
  obtain ⟨⟨coords, rest⟩, hcoords, h⟩ := bind_eq_ok.mp h
  cases hbox : Box.ofCoords coords with
  | error cause =>
    simp only [hbox] at h
    cases h
  | ok box =>
    simp only [hbox] at h
    cases h
    obtain rfl := readWord_eq_ok_iff.mp htuples
    obtain rfl := readWord_eq_ok_iff.mp holdest
    obtain rfl := readWord_eq_ok_iff.mp hnewest
    obtain rfl := readWord_eq_ok_iff.mp hreceived
    obtain rfl := readWord_eq_ok_iff.mp hcount
    obtain ⟨hlen, rfl⟩ := readCoords_eq_ok_iff.mp hcoords
    obtain rfl := Box.coords_of_ofCoords hbox
    have hlt : box.coords.length < Word.limit 8 := by
      rw [hlen]
      exact count.toNat_lt
    refine ⟨hlt, rest, ?_⟩
    simp only [toBytes, hlen, List.append_assoc, UInt64.toUInt64_toInt64]

/-- The bytes of a summary are read as the summary, bit by bit, whatever stands behind them; with
any of them missing at the end they are refused. Whatever is read as a summary starts with the bytes
of this summary, and the ends of its box are a box. -/
theorem bytes_are_exact :
    (∀ s : Summary, s.box.coords.length < Word.limit 8 →
      (∀ rest, ofBytes (s.toBytes ++ rest) = .ok s) ∧
      ∀ p, p <+: s.toBytes → p ≠ s.toBytes →
        ofBytes p = .error (.summary (.cutOff (8 - p.length % 8)))) ∧
    ∀ bs s, ofBytes bs = .ok s → Box.ofCoords s.box.coords = .ok s.box ∧ s.toBytes <+: bs := by
  constructor
  · intro s h
    exact ⟨ofBytes_toBytes h, fun p hp hne => ofBytes_of_cut h hp hne⟩
  · intro bs s h
    exact ⟨Box.ofCoords_coords s.box, (of_ofBytes h).2⟩

/-- Times before the epoch and a box with a negative zero and without an end: read back with a byte
behind them, and refused where five bytes of the low end are missing. -/
theorem bytes_are_exact_unbounded :
    let s : Summary := ⟨2, -4, 9, -1,
      ⟨[⟨⟨0x8000000000000000⟩, ⟨0x7ff0000000000000⟩, by decide⟩]⟩⟩
    ofBytes (s.toBytes ++ [7]) = .ok s ∧
      ofBytes (s.toBytes.take 43) = .error (.summary (.cutOff 5)) ∧
      Box.ofCoords s.box.coords = .ok s.box ∧ s.toBytes <+: s.toBytes ++ [7] := by
  intro s
  obtain ⟨hback, hcut⟩ := bytes_are_exact.1 s (by decide)
  have hmissing : 8 - (s.toBytes.take 43).length % 8 = 5 := by decide
  have hrefused := hcut _ (List.take_prefix 43 _) (by decide)
  rw [hmissing] at hrefused
  exact ⟨hback [7], hrefused, bytes_are_exact.2 (s.toBytes ++ [7]) s (hback [7])⟩

end Summary

end SpatialSegment
