import Mathlib.Algebra.GroupWithZero.Nat
import SpatialSegment.Proofs.Threading
import SpatialSegment.Proofs.Tuple.Decoding

/-!
# Streams of records that end early

Records are appended to a buffer one behind the other, and a tuple that has none leaves the buffer
as it was. From any beginning of the buffer the tuples whose records are there as a whole are read
back in order. Every call after them reports a short record and does not move the position.
-/

namespace SpatialSegment

namespace Record

section

variable {t : Tuple}

/-! ## Appending -/

/-- Appending changes the buffer by the whole record or not at all. -/
theorem run_append (t : Tuple) (out : Bytes) :
    (append t).run.run out =
      match encode t with
      | .ok record => (.ok (), out ++ record)
      | .error cause => (.error cause, out) := by
  by_cases hempty : Text.bytes t.key = []
  · rw [append, encode, if_pos hempty, if_pos hempty]
    rfl
  · by_cases hlong : Word.maxSigned16 < (Text.bytes t.key).length
    · rw [append, encode, if_neg hempty, if_neg hempty]
      simp only [if_pos hlong]
      rfl
    · rw [append, encode, if_neg hempty, if_neg hempty]
      simp only [if_neg hlong]
      cases lengthWord "bounding box" t.box.storedLen with
      | error cause => rfl
      | ok boxLen =>
        cases lengthWord "payload" t.payload.length with
        | error cause => rfl
        | ok payloadLen =>
          change (Except.ok (), out ++ Word.big 2 (Text.bytes t.key).length ++ boxLen ++
            payloadLen ++ Word.big 8 t.version.toUInt64.toNat ++
            Word.big 8 t.received.toUInt64.toNat ++ Text.bytes t.key ++ t.box.toBytes ++
            t.payload) = (Except.ok (), out ++ _)
          simp only [List.append_assoc]

theorem run_append_of_storable (storable : Storable t) (out : Bytes) :
    (append t).run.run out = (.ok (), out ++ stored t) := by
  rw [run_append, encode_eq_ok_iff.mpr ⟨storable, rfl⟩]

/-- Nothing is appended for a tuple that has no record. -/
theorem eq_of_append_error {out out' : Bytes} {cause : ArgumentFault}
    (h : (append t).run.run out = (.error cause, out')) : out' = out := by
  rw [run_append] at h
  cases hencode : encode t with
  | ok record =>
    rw [hencode] at h
    cases h
  | error cause' =>
    rw [hencode] at h
    cases h
    rfl

/-- The tuples have been appended when all of them have records, which then stand one behind the
other. -/
theorem run_append_all_iff {tuples : List Tuple} {out written : Bytes} :
    (tuples.forM append).run.run out = (.ok (), written) ↔
      (∀ t ∈ tuples, Storable t) ∧ written = out ++ tuples.flatMap stored := by
  induction tuples generalizing out with
  | nil =>
    constructor
    · intro h
      cases h
      simp
    · rintro ⟨-, rfl⟩
      simp only [List.flatMap_nil, List.append_nil]
      rfl
  | cons t tuples ih =>
    change (append t >>= fun _ => tuples.forM append).run.run out = _ ↔ _
    constructor
    · intro h
      obtain ⟨_, out', hfirst, hrest⟩ := exists_of_bind_ok h
      rw [run_append] at hfirst
      cases hencode : encode t with
      | error cause =>
        rw [hencode] at hfirst
        cases hfirst
      | ok record =>
        rw [hencode] at hfirst
        cases hfirst
        obtain ⟨hstorable, rfl⟩ := encode_eq_ok_iff.mp hencode
        obtain ⟨hstorables, rfl⟩ := ih.mp hrest
        refine ⟨List.forall_mem_cons.mpr ⟨hstorable, hstorables⟩, ?_⟩
        rw [List.flatMap_cons, List.append_assoc]
    · rintro ⟨storable, rfl⟩
      obtain ⟨hstorable, hstorables⟩ := List.forall_mem_cons.mp storable
      rw [run_bind_of_ok (run_append_of_storable hstorable out), ih]
      refine ⟨hstorables, ?_⟩
      rw [List.flatMap_cons, List.append_assoc]

/-- A whole record announces its own length. -/
theorem announcedLen_stored (fits : Fits t) : announcedLen (stored t) = .ok (storedLen t) := by
  have hread := read_header fits [] (Text.bytes t.key ++ t.box.toBytes ++ t.payload)
  rw [List.nil_append, List.length_nil] at hread
  have hstored : stored t = header t ++ (Text.bytes t.key ++ t.box.toBytes ++ t.payload) := by
    simp only [stored, List.append_assoc]
  rw [announcedLen, hstored, hread]
  rfl

end

/-! ## Reading on and on -/

/-- The outcomes of a number of calls for the next record, each with the position after it. -/
def reads (buf : Bytes) : (calls pos : Nat) → List (Except FormatFault Tuple × Nat)
  | 0, _ => []
  | calls + 1, pos =>
    let outcome := (next buf).run.run pos
    outcome :: reads buf calls outcome.2

/-- The outcomes of calls that read the tuples, each with the position of the end of its record. -/
def outcomes (pos : Nat) : List Tuple → List (Except FormatFault Tuple × Nat)
  | [] => []
  | t :: rest => (.ok t, pos + storedLen t) :: outcomes (pos + storedLen t) rest

section

variable {buf lost before : Bytes} {pos stop : Nat} {t : Tuple}

/-- A call moves the position exactly when it gives a tuple. -/
theorem run_next (buf : Bytes) (pos : Nat) :
    (next buf).run.run pos =
      match decode buf pos with
      | .ok (t, stop) => (.ok t, stop)
      | .error cause => (.error cause, pos) := by
  have hlift : (next buf).run.run pos =
      (liftM (decode buf pos) >>= fun p => set p.2 >>= fun _ => pure p.1 :
        Moving Tuple).run.run pos := rfl
  rw [hlift]
  cases decode buf pos <;> rfl

/-- After a failure every call fails alike. -/
theorem reads_of_error {cause : FormatFault} (h : decode buf pos = .error cause) (calls : Nat) :
    reads buf calls pos = List.replicate calls (.error cause, pos) := by
  induction calls with
  | zero => rfl
  | succ calls ih => rw [reads, run_next, h, ih, List.replicate_succ]

/-- Reading a beginning of a stream of records gives the tuples whose records are there as a whole,
and then short records. -/
theorem exists_reads {tuples : List Tuple} (storable : ∀ t ∈ tuples, Storable t)
    (cut : buf ++ lost = before ++ tuples.flatMap stored) (inside : before.length ≤ buf.length) :
    ∃ whole rest need position, tuples = whole ++ rest ∧
      before.length + (whole.map storedLen).sum ≤ buf.length ∧
      (∀ t ∈ rest.head?, buf.length < before.length + (whole.map storedLen).sum + storedLen t) ∧
      ∀ calls, reads buf (whole.length + calls) before.length =
        outcomes before.length whole ++ List.replicate calls
          (.error (.shortRecord need position buf.length),
            before.length + (whole.map storedLen).sum) := by
  induction tuples generalizing before with
  | nil =>
    have hlength := congrArg List.length cut
    rw [List.length_append, List.flatMap_nil, List.append_nil] at hlength
    have hshort : decode buf before.length =
        .error (.shortRecord headerLen before.length buf.length) := by
      rw [decode, Header.read_of_short (by rw [headerLen]; omega)]
      rfl
    refine ⟨[], [], headerLen, before.length, rfl, inside, by simp, fun calls => ?_⟩
    rw [List.length_nil, Nat.zero_add, reads_of_error hshort]
    rfl
  | cons t tuples ih =>
    obtain ⟨hstorable, hstorables⟩ := List.forall_mem_cons.mp storable
    rw [List.flatMap_cons, ← List.append_assoc] at cut
    have stands : Stands (buf ++ lost) before.length t := by
      rw [cut]
      exact stands_stored hstorable.toFits before _
    by_cases hwhole : before.length + storedLen t ≤ buf.length
    · have hdecode := (stands.of_append hwhole).decode_eq
      have hlength : (before ++ stored t).length = before.length + storedLen t := by
        rw [List.length_append, length_stored]
      obtain ⟨whole, rest, need, position, rfl, hinside, hbehind, hreads⟩ :=
        ih hstorables cut (hlength ▸ hwhole)
      rw [hlength] at hinside hbehind hreads
      have hsum : before.length + ((t :: whole).map storedLen).sum =
          before.length + storedLen t + (whole.map storedLen).sum := by
        rw [List.map_cons, List.sum_cons, Nat.add_assoc]
      refine ⟨t :: whole, rest, need, position, rfl, hsum ▸ hinside, ?_, fun calls => ?_⟩
      · rw [hsum]
        exact hbehind
      · rw [List.length_cons, Nat.add_right_comm, reads, run_next, hdecode, hsum, hreads,
          outcomes, List.cons_append]
    · obtain ⟨need, position, hshort⟩ := stands.decode_cut (Nat.lt_of_not_le hwhole)
      refine ⟨[], t :: tuples, need, position, rfl, inside, ?_, fun calls => ?_⟩
      · rintro t' ht'
        cases ht'
        exact Nat.lt_of_not_le hwhole
      · rw [List.length_nil, Nat.zero_add, reads_of_error hshort]
        rfl

end

/-- Of records that have been appended to an empty buffer those that a beginning of it holds as a
whole are read back in order, and every call after them reports a short record and leaves the
position at the end of the last one, which is where the record that is cut off begins. A record is
as long as was said before it was written and as its header announces; a tuple that has none leaves
the buffer as it was. -/
theorem stream_read_back (tuples : List Tuple) (written buf : Bytes)
    (appended : (tuples.forM append).run.run [] = (.ok (), written)) (cut : buf <+: written) :
    (∃ whole rest need position, tuples = whole ++ rest ∧
      (whole.map storedLen).sum ≤ buf.length ∧
      (∀ t ∈ rest.head?, buf.length < (whole.map storedLen).sum + storedLen t) ∧
      ∀ calls, reads buf (whole.length + calls) 0 = outcomes 0 whole ++
        List.replicate calls
          (.error (.shortRecord need position buf.length), (whole.map storedLen).sum)) ∧
    (∀ t ∈ tuples, ∀ out, ∃ record, (append t).run.run out = (.ok (), out ++ record) ∧
      record.length = storedLen t ∧ announcedLen record = .ok (storedLen t)) ∧
    ∀ t out out' cause, (append t).run.run out = (.error cause, out') → out' = out := by
  obtain ⟨storable, hwritten⟩ := run_append_all_iff.mp appended
  obtain ⟨lost, hlost⟩ := cut
  refine ⟨?_, fun t ht out => ?_, fun t out out' cause => eq_of_append_error⟩
  · have h := exists_reads storable (hlost.trans hwritten) (Nat.zero_le _)
    simpa only [List.length_nil, Nat.zero_add] using h
  · exact ⟨stored t, run_append_of_storable (storable t ht) out, length_stored t,
      announcedLen_stored (storable t ht).toFits⟩

/-- Without the last byte of the second record only the first tuple is read. -/
theorem stream_read_back_one :
    let early : Tuple := ⟨"a", Box.fullSpace, [7], 1, 3⟩
    let late : Tuple := ⟨"b", ⟨[⟨⟨0⟩, ⟨0x3ff0000000000000⟩, by decide⟩]⟩, [8, 9], 2, 4⟩
    ∃ written need position, ([early, late].forM append).run.run [] = (.ok (), written) ∧
      written.length = 73 ∧ ∀ calls, reads (written.take 72) (1 + calls) 0 =
        (.ok early, 28) :: List.replicate calls (.error (.shortRecord need position 72), 28) := by
  intro early late
  have storable : ∀ t ∈ [early, late], Storable t := by
    intro t ht
    rcases List.mem_cons.mp ht with rfl | ht
    · exact ⟨⟨by decide, by decide, by decide⟩, by decide⟩
    · obtain rfl := List.mem_singleton.mp ht
      exact ⟨⟨by decide, by decide, by decide⟩, by decide⟩
  have hlength : ([early, late].flatMap stored).length = 73 := by
    simp only [List.flatMap_cons, List.flatMap_nil, List.length_append, length_stored]
    decide
  have happended : ([early, late].forM append).run.run [] =
      (.ok (), [early, late].flatMap stored) := run_append_all_iff.mpr ⟨storable, rfl⟩
  obtain ⟨⟨whole, rest, need, position, hsplit, hinside, hbehind, hreads⟩, -, -⟩ :=
    stream_read_back [early, late] _ (([early, late].flatMap stored).take 72) happended
      (List.take_prefix 72 _)
  have hcut : (([early, late].flatMap stored).take 72).length = 72 := by
    rw [List.length_take, hlength]
    rfl
  have hearly : storedLen early = 28 := by decide
  have hlate : storedLen late = 45 := by decide
  rw [hcut] at hinside hbehind hreads
  refine ⟨_, need, position, happended, hlength, fun calls => ?_⟩
  rcases whole with _ | ⟨t, _ | ⟨t', whole⟩⟩
  · cases hsplit
    exact absurd (hbehind early rfl) (by rw [hearly]; decide)
  · cases hsplit
    have hread := hreads calls
    simp only [List.map_cons, List.map_nil, List.sum_cons, List.sum_nil, outcomes, hearly] at hread
    exact hread
  · obtain ⟨rfl, htail⟩ := List.cons.inj hsplit
    obtain ⟨rfl, -⟩ := List.cons.inj htail
    simp only [List.map_cons, List.sum_cons, hearly, hlate] at hinside
    omega

end Record

end SpatialSegment
