import SpatialSegment.Segment.Write
import SpatialSegment.Proofs.Lists
import SpatialSegment.Proofs.File.Guarded
import SpatialSegment.Proofs.Tuple.Record

/-!
# Records are found in the log

A record that stands in an open log is read from its offset, as a whole and for its key alone.
Writing tuples one behind the other gives a log in which each stands at the offset that was noted
for it.
-/

namespace SpatialSegment

namespace Log

variable {fs : FileSystem} {log : Log} {t : Tuple} {before after : Bytes}

theorem readHeader_eq {v : View} (shows : v.Shows fs (before ++ Record.stored t ++ after))
    (hbefore : before.length < View.signedLimit) :
    log.file.read fs v before.length Record.headerLen = .ok (Record.header t) := by
  have hbytes : before ++ Record.stored t ++ after = before ++ Record.header t ++
      (Text.bytes t.key ++ t.box.toBytes ++ t.payload ++ after) := by
    simp only [Record.stored, List.append_assoc]
  have h := GuardedFile.read_eq (hbytes ▸ shows) log.file hbefore
  rwa [Record.length_header] at h

/-- The header of a record tells its length. -/
theorem announcedLenAt_eq {v : View} (shows : v.Shows fs (before ++ Record.stored t ++ after))
    (fits : Record.Fits t) (hbefore : before.length < View.signedLimit) :
    log.announcedLenAt fs v before.length = .ok (Record.storedLen t) := by
  rw [announcedLenAt, readHeader_eq shows hbefore, ok_bind, Record.announcedLen_header fits]
  rfl

/-- A record of known length is read. -/
theorem readRecord_eq {v : View} (shows : v.Shows fs (before ++ Record.stored t ++ after))
    (fits : Record.Fits t) (hbefore : before.length < View.signedLimit) :
    log.readRecord fs v before.length (Record.storedLen t) = .ok t := by
  have hrecord := GuardedFile.read_eq shows log.file hbefore
  rw [Record.length_stored] at hrecord
  have hdecode := Record.decode_stored fits [] []
  rw [List.nil_append, List.append_nil, List.length_nil] at hdecode
  rw [readRecord, hrecord, ok_bind, hdecode]
  rfl

/-- A record is read from its offset. -/
theorem tupleAt_eq (shows : log.file.Shows fs (before ++ Record.stored t ++ after))
    (fits : Record.Fits t) (hbefore : before.length < View.signedLimit) :
    log.tupleAt fs before.length = .ok (some t) := by
  rw [tupleAt, shows.use_eq (.ok t)]
  · rfl
  · intro v hv
    rw [announcedLenAt_eq hv fits hbefore]
    exact readRecord_eq hv fits hbefore

/-- The key is read from the header, and then from a range that goes on to the end of the key. -/
theorem keyAt_of_reads {v : View} {offset : Nat} (fits : Record.Fits t)
    (uses : ∀ answer : View → Result String, log.file.use answer = (answer v).map some)
    (hheader : log.file.read fs v offset Record.headerLen = .ok (Record.header t))
    (hkey : log.file.read fs v offset (Record.headerLen + (Text.bytes t.key).length) =
      .ok (Record.header t ++ Text.bytes t.key)) :
    log.keyAt fs offset = .ok (some t.key) := by
  have hpeek := Record.peekKey_header fits [] []
  rw [List.nil_append, List.append_nil, List.length_nil] at hpeek
  have hkeyLen : Word.signed 2 (Word.ofBig ((Record.header t).take 2)) =
      ((Text.bytes t.key).length : Int) := by
    have hlimit2 : Word.limit 2 = 65536 := rfl
    have hmax16 : Word.maxSigned16 = 32767 := rfl
    have hle := fits.key_le
    rw [(Record.words_header t).1, Word.ofBig_big (by omega), Word.signed_of_small (by omega)]
  rw [keyAt, uses, hheader, ok_bind]
  simp only [hkeyLen]
  rw [if_neg (by omega), Int.toNat_natCast, hkey]
  simp only [ok_bind, hpeek]
  rfl

/-- The key of a record is read from its offset. -/
theorem keyAt_eq (shows : log.file.Shows fs (before ++ Record.stored t ++ after))
    (fits : Record.Fits t) (hbefore : before.length < View.signedLimit) :
    log.keyAt fs before.length = .ok (some t.key) := by
  obtain ⟨v, hv, uses⟩ := shows.exists_use
  have hbytes : before ++ Record.stored t ++ after =
      before ++ (Record.header t ++ Text.bytes t.key) ++ (t.box.toBytes ++ t.payload ++ after) := by
    simp only [Record.stored, List.append_assoc]
  have hkey := GuardedFile.read_eq (hbytes ▸ hv) log.file hbefore
  rw [List.length_append, Record.length_header] at hkey
  exact keyAt_of_reads fits uses (readHeader_eq hv hbefore) hkey

end Log

namespace Segment

/-- The offsets of the records of tuples that are written one behind the other. -/
def recordOffsets (offset : Nat) : List Tuple → List Nat
  | [] => []
  | t :: rest => offset :: recordOffsets (offset + Record.storedLen t) rest

variable {path : Path} {offset : Nat} {tuples : List Tuple}

@[simp] theorem length_recordOffsets (offset : Nat) (tuples : List Tuple) :
    (recordOffsets offset tuples).length = tuples.length := by
  induction tuples generalizing offset with
  | nil => rfl
  | cons t tuples ih => rw [recordOffsets, List.length_cons, ih, List.length_cons]

/-- What is known when all records have been written. -/
structure Recorded (offset : Nat) (tuples : List Tuple) : Prop where
  storable : ∀ t ∈ tuples, Record.Storable t
  offset_le : ∀ o ∈ recordOffsets offset tuples, o ≤ Word.maxSigned32

theorem records_of_ok {offsets : List Nat} (h : (records path offset tuples).2 = .ok offsets) :
    (records path offset tuples).1 = tuples.flatMap Record.stored ∧
      offsets = recordOffsets offset tuples ∧ Recorded offset tuples := by
  induction tuples generalizing offset offsets with
  | nil =>
    cases h
    exact ⟨rfl, rfl, by simp, by simp [recordOffsets]⟩
  | cons t tuples ih =>
    rw [records] at h ⊢
    by_cases hlong : Word.maxSigned32 < offset
    · rw [if_pos hlong] at h
      cases h
    · rw [if_neg hlong] at h ⊢
      cases hencode : Record.encode t with
      | error cause =>
        rw [hencode] at h
        cases h
      | ok record =>
        rw [hencode] at h
        obtain ⟨hstorable, rfl⟩ := Record.encode_eq_ok_iff.mp hencode
        simp only [Record.length_stored] at h ⊢
        cases hrest : (records path (offset + Record.storedLen t) tuples).2 with
        | error cause =>
          simp only [hrest] at h
          cases h
        | ok rest =>
          simp only [hrest] at h
          cases h
          obtain ⟨hbytes, rfl, hstorables, hoffsets⟩ := ih hrest
          refine ⟨?_, rfl, ?_, ?_⟩
          · rw [hbytes, List.flatMap_cons]
          · intro t' ht'
            rcases List.mem_cons.mp ht' with rfl | hmem
            · exact hstorable
            · exact hstorables t' hmem
          · intro o ho
            rcases List.mem_cons.mp ho with rfl | hmem
            · omega
            · exact hoffsets o hmem

theorem records_eq (recorded : Recorded offset tuples) :
    records path offset tuples =
      (tuples.flatMap Record.stored, .ok (recordOffsets offset tuples)) := by
  induction tuples generalizing offset with
  | nil => rfl
  | cons t tuples ih =>
    have hoffset : ¬ Word.maxSigned32 < offset :=
      Nat.not_lt.mpr (recorded.offset_le offset List.mem_cons_self)
    have hencode := Record.encode_eq_ok_iff.mpr ⟨recorded.storable t List.mem_cons_self, rfl⟩
    have hrest : Recorded (offset + Record.storedLen t) tuples :=
      ⟨fun t' ht' => recorded.storable t' (List.mem_cons_of_mem _ ht'),
        fun o ho => recorded.offset_le o (List.mem_cons_of_mem _ ho)⟩
    rw [records, if_neg hoffset, hencode]
    simp only [Record.length_stored, ih hrest]
    rfl

theorem getElem?_recordOffsets {i : Nat} {t : Tuple} (ht : tuples[i]? = some t) :
    (recordOffsets offset tuples)[i]? =
      some (offset + ((tuples.take i).flatMap Record.stored).length) := by
  induction tuples generalizing offset i with
  | nil => cases ht
  | cons t' tuples ih =>
    cases i with
    | zero => rfl
    | succ i =>
      rw [recordOffsets, List.getElem?_cons_succ, ih ht, List.take_succ_cons, List.flatMap_cons,
        List.length_append, Record.length_stored, Nat.add_assoc]

/-- There are not more records than offsets that four bytes hold. -/
theorem Recorded.length_le (recorded : Recorded offset tuples) :
    tuples.length ≤ Word.maxSigned32 := by
  have hgrow : ∀ k, 26 * (tuples.take k).length ≤
      ((tuples.take k).flatMap Record.stored).length := by
    intro k
    induction tuples.take k with
    | nil => exact Nat.zero_le _
    | cons t ts ih =>
      rw [List.flatMap_cons, List.length_append, Record.length_stored, Record.storedLen,
        Record.headerLen, List.length_cons]
      omega
  by_cases hempty : tuples.length = 0
  · omega
  · have hlast : tuples[tuples.length - 1]? = some tuples[tuples.length - 1] :=
      List.getElem?_eq_getElem (by omega)
    have hle := recorded.offset_le _
      (List.mem_of_getElem? (getElem?_recordOffsets hlast))
    have hcount := hgrow (tuples.length - 1)
    rw [List.length_take] at hcount
    have hmax : Word.maxSigned32 = 2147483647 := rfl
    omega

end Segment

end SpatialSegment
