import SpatialSegment.Proofs.Log.Keys
import SpatialSegment.Proofs.Log.Offsets
import SpatialSegment.Proofs.Tuple.Canonical

/-!
# Reading the key alone

Reading the key of a record agrees with reading the whole record, whatever stands in the buffer: the
key is that of the tuple, and the position stops within the record. Of the bytes from the position
on, only the length of the key and the key itself have a say in it.
-/

namespace SpatialSegment

namespace Record

/-- Both buffers have a length of a key at the position, the same one, and both reach to the end of
a key of that length, which is the same in both. -/
structure SameKey (buf buf' : Bytes) (pos : Nat) : Prop where
  reach : pos + 2 ≤ buf.length ∧ pos + 2 ≤ buf'.length
  keyLen : (buf.drop pos).take 2 = (buf'.drop pos).take 2
  key_reach : ∀ n, readLength "key" ((buf.drop pos).take 2) = .ok n →
    pos + headerLen + n ≤ buf.length ∧ pos + headerLen + n ≤ buf'.length
  key : ∀ n, readLength "key" ((buf.drop pos).take 2) = .ok n →
    (buf.drop (pos + headerLen)).take n = (buf'.drop (pos + headerLen)).take n

section

variable {buf buf' : Bytes} {pos len stop : Nat} {t : Tuple}

/-- A call moves the position exactly when it gives a key. -/
theorem run_nextKey (buf : Bytes) (pos : Nat) :
    (nextKey buf).run.run pos =
      match peekKey buf pos with
      | .ok (key, stop) => (.ok key, stop)
      | .error cause => (.error cause, pos) := by
  change (liftM (peekKey buf pos) >>= fun p => set p.2 >>= fun _ => pure p.1 :
    Moving String).run.run pos = _
  cases peekKey buf pos <;> rfl

theorem nextKey_of_peekKey {key : String} (h : peekKey buf pos = .ok (key, stop)) :
    (nextKey buf).run.run pos = (.ok key, stop) := by
  rw [run_nextKey, h]

/-- Where a tuple is read, its key stands behind a header of fixed length. -/
theorem peekKey_of_decode (h : decode buf pos = .ok (t, stop)) :
    peekKey buf pos = .ok (t.key, pos + headerLen + (Text.bytes t.key).length) := by
  obtain ⟨before, after, rfl, rfl, fits, -⟩ := decode_eq_ok_iff.mp h
  have hkey := peekKey_header fits before (t.box.toBytes ++ t.payload ++ after)
  simpa only [stored, List.append_assoc] using hkey

/-- The end of the key is not behind the end of the record. -/
theorem keyEnd_le_of_decode (h : decode buf pos = .ok (t, stop)) :
    pos + headerLen + (Text.bytes t.key).length ≤ stop := by
  obtain ⟨-, hstop, -⟩ := stored_of_decode h
  simp only [storedLen] at hstop
  omega

/-- A failure leaves the position where it was, whichever of the two reads has failed. -/
theorem eq_of_read_error {cause : FormatFault}
    (h : (next buf).run.run pos = (.error cause, stop) ∨
      (nextKey buf).run.run pos = (.error cause, stop)) : stop = pos := by
  rcases h with h | h
  · rw [run_next] at h
    cases hdecode : decode buf pos with
    | error cause' =>
      rw [hdecode] at h
      cases h
      rfl
    | ok read =>
      rw [hdecode] at h
      cases h
  · rw [run_nextKey] at h
    cases hpeek : peekKey buf pos with
    | error cause' =>
      rw [hpeek] at h
      cases h
      rfl
    | ok read =>
      rw [hpeek] at h
      cases h

/-- Taking looks at no more of a buffer than it takes. -/
theorem take_congr (hle : pos + len ≤ buf.length) (hle' : pos + len ≤ buf'.length)
    (same : (buf.drop pos).take len = (buf'.drop pos).take len) :
    take buf pos len = take buf' pos len := by
  have h : take buf pos len = .ok ((buf.drop pos).take len) := take_eq_ok_iff.mpr ⟨hle, rfl⟩
  have h' : take buf' pos len = .ok ((buf.drop pos).take len) :=
    take_eq_ok_iff.mpr ⟨hle', same.symm⟩
  exact h.trans h'.symm

/-- The key is read alike from both buffers, or the same fault is found in both. -/
theorem SameKey.peekKey_eq (same : SameKey buf buf' pos) : peekKey buf pos = peekKey buf' pos := by
  have hword : take buf pos 2 = .ok ((buf.drop pos).take 2) :=
    take_eq_ok_iff.mpr ⟨same.reach.1, rfl⟩
  have hword' : take buf' pos 2 = .ok ((buf.drop pos).take 2) :=
    take_eq_ok_iff.mpr ⟨same.reach.2, same.keyLen.symm⟩
  simp only [peekKey, hword, hword', ok_bind]
  cases hlen : readLength "key" ((buf.drop pos).take 2) with
  | error cause => rfl
  | ok n =>
    have hkey := take_congr (same.key_reach n hlen).1 (same.key_reach n hlen).2 (same.key n hlen)
    simp only [ok_bind, hkey]

end

end Record

namespace Log

open Record

/-- A call that reads a tuple from a position reads its key when it is asked for the key alone, and
then stops at the end of the key, within the record. A call that fails leaves the position where it
was. The key of the tuple that a log has at an offset is the key that it has there. Nothing but the
length of the key and the key has a say in what is read. -/
theorem key_alone_agrees :
    (∀ (buf : Bytes) (pos stop : Nat) (t : Tuple), (next buf).run.run pos = (.ok t, stop) →
      (nextKey buf).run.run pos =
          (.ok t.key, pos + headerLen + (Text.bytes t.key).length) ∧
        pos + headerLen + (Text.bytes t.key).length ≤ stop) ∧
    (∀ (buf : Bytes) (pos stop : Nat) (cause : FormatFault),
      (next buf).run.run pos = (.error cause, stop) ∨
        (nextKey buf).run.run pos = (.error cause, stop) → stop = pos) ∧
    (∀ (fs : FileSystem) (log : Log) (offset : Nat) (t : Tuple),
      log.tupleAt fs offset = .ok (some t) → log.keyAt fs offset = .ok (some t.key)) ∧
    ∀ (buf buf' : Bytes) (pos : Nat), SameKey buf buf' pos →
      (nextKey buf).run.run pos = (nextKey buf').run.run pos := by
  refine ⟨?_, ?_, ?_, ?_⟩
  · intro buf pos stop t read
    have hdecode := decode_of_next read
    exact ⟨nextKey_of_peekKey (peekKey_of_decode hdecode), keyEnd_le_of_decode hdecode⟩
  · intro buf pos stop cause failed
    exact eq_of_read_error failed
  · intro fs log offset t found
    exact keyAt_of_tupleAt found
  · intro buf buf' pos same
    rw [run_nextKey, run_nextKey, same.peekKey_eq]

/-- A header that tells a key of one byte, and in which all other bytes are set. -/
def blurred : Bytes := Word.big 2 1 ++ List.replicate 24 255

/-- Behind such a header no tuple is read. -/
theorem decode_blurred (before rest : Bytes) :
    decode (before ++ blurred ++ rest) before.length =
      .error (.negativeLength "bounding box" (-1)) := by
  have hraw : take (before ++ blurred ++ rest) before.length headerLen = .ok blurred :=
    take_append before blurred rest
  have hkey : blurred.take 2 = Word.big 2 1 := rfl
  have hbox : (blurred.drop 2).take 4 = List.replicate 4 255 := rfl
  have hword : Word.signed 4 (Word.ofBig (List.replicate 4 255)) = -1 := by decide +kernel
  have hboxLen : readLength "bounding box" (List.replicate 4 255) =
      .error (.negativeLength "bounding box" (-1)) := by
    rw [readLength, List.length_replicate, hword]
    rfl
  rw [decode, Header.read, hraw, ok_bind, hkey, readLength_big (by decide), ok_bind, hbox, hboxLen]
  rfl

/-- A tuple with a key of one byte is read from its record, and no tuple is read where all the
header but the length of the key has been overwritten. The key is read from both. A log with the
record tells the key at the offset of the tuple. -/
theorem key_alone_agrees_blurred :
    let buf := [9] ++ stored keyed ++ [9]
    let overwritten := [9] ++ blurred ++ [97]
    (next buf).run.run 1 = (.ok keyed, 28) ∧ (nextKey buf).run.run 1 = (.ok "a", 28) ∧
      (next overwritten).run.run 1 = (.error (.negativeLength "bounding box" (-1)), 1) ∧
      SameKey buf overwritten 1 ∧ (nextKey overwritten).run.run 1 = (.ok "a", 28) ∧
      (mapped (stored keyed)).keyAt FileSystem.empty FileFormat.bodyStart = .ok (some "a") := by
  intro buf overwritten
  obtain ⟨agrees, -, looked, alike⟩ := key_alone_agrees
  have fits : Fits keyed := ⟨by decide, by decide, by decide⟩
  have hdecode : decode buf 1 = .ok (keyed, 28) := decode_stored fits [9] [9]
  have read : (next buf).run.run 1 = (.ok keyed, 28) := by rw [run_next, hdecode]
  have hkey := (agrees buf 1 28 keyed read).1
  have unread : decode overwritten 1 = .error (.negativeLength "bounding box" (-1)) :=
    decode_blurred [9] [97]
  have same : SameKey buf overwritten 1 := by
    have hbytes : (buf.drop 1).take 2 = Word.big 2 1 := by decide +kernel
    have hlen : readLength "key" ((buf.drop 1).take 2) = .ok 1 := by
      rw [hbytes, readLength_big (by decide)]
    refine ⟨by decide +kernel, by decide +kernel, fun n hn => ?_, fun n hn => ?_⟩
    · cases hlen.symm.trans hn
      decide +kernel
    · cases hlen.symm.trans hn
      decide +kernel
  have shows : (mapped (stored keyed)).file.Shows FileSystem.empty
      (FileFormat.tupleLog.magic ++ stored keyed ++ []) := by
    rw [List.append_nil]
    exact ⟨rfl, _, rfl, View.shows_mapped _ _⟩
  have found := tupleAt_eq shows fits (by decide)
  refine ⟨read, hkey, ?_, same, (alike buf overwritten 1 same).symm.trans hkey,
    looked _ _ _ _ found⟩
  rw [run_next, unread]

end Log

end SpatialSegment
