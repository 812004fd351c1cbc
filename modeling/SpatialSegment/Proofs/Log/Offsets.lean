import SpatialSegment.Proofs.Checked.Log

/-!
# The offsets that a log tells

The loop over the records of a log goes by their headers and does not look behind them. So it comes
to an end without a fault if each header is there, and what the last header announces reaches the
end of the log or goes beyond it. A log that ends within its last record, behind the header, gives
offsets like a whole one; only reading that record tells that it is cut.
-/

namespace SpatialSegment

namespace Record

/-- The length of the record at an offset, as its header in the bytes tells. -/
def announcedAt (bs : Bytes) (offset : Nat) : Except FormatFault Nat :=
  announcedLen ((bs.drop offset).take headerLen)

/-- The record at the offset lies in the bytes. -/
def WholeAt (bs : Bytes) (offset : Nat) : Prop :=
  ∃ len, announcedAt bs offset = .ok len ∧ offset + len ≤ bs.length

/-- Records one behind the other, from an offset up to the end of the last one. Each begins where
the one before it ends, as the header of that tells. -/
inductive Chain (bs : Bytes) : Nat → List Nat → Nat → Prop
  | done (stop : Nat) : Chain bs stop [] stop
  | record {offset len stop : Nat} {offsets : List Nat}
    (announced : announcedAt bs offset = .ok len)
    (rest : Chain bs (offset + len) offsets stop) : Chain bs offset (offset :: offsets) stop

variable {bs : Bytes} {start offset len stop : Nat} {offsets : List Nat}

/-- Only a whole header announces a length. -/
theorem header_of_announcedAt (h : announcedAt bs offset = .ok len) :
    offset + headerLen ≤ bs.length := by
  by_contra hshort
  have hlength : ((bs.drop offset).take headerLen).length < 0 + headerLen := by
    have hheader : headerLen = 26 := rfl
    rw [List.length_take, List.length_drop]
    omega
  rw [announcedAt, announcedLen, Header.read_of_short hlength] at h
  cases h

/-- The header of a tuple announces the length of its record, whatever stands behind the header. -/
theorem announcedAt_header {t : Tuple} (fits : Fits t) (before after : Bytes) :
    announcedAt (before ++ (header t ++ after)) before.length = .ok (storedLen t) := by
  rw [announcedAt, List.drop_left, ← length_header t, List.take_left, announcedLen_header fits]

theorem announcedAt_stored {t : Tuple} (fits : Fits t) (before after : Bytes) :
    announcedAt (before ++ (stored t ++ after)) before.length = .ok (storedLen t) := by
  have hstored : stored t ++ after =
      header t ++ (Text.bytes t.key ++ t.box.toBytes ++ t.payload ++ after) := by
    simp only [stored, List.append_assoc]
  rw [hstored]
  exact announcedAt_header fits before _

theorem Chain.exists_announced (chain : Chain bs start offsets stop) :
    ∀ o ∈ offsets, ∃ len, announcedAt bs o = .ok len := by
  induction chain with
  | done => simp
  | record announced rest ih =>
    rintro o (_ | ⟨_, ho⟩)
    · exact ⟨_, announced⟩
    · exact ih o ho

/-- Behind a record that another one follows the bytes go on. -/
theorem Chain.whole_of_mem_dropLast (chain : Chain bs start offsets stop) :
    ∀ o ∈ offsets.dropLast, WholeAt bs o := by
  induction chain with
  | done => simp
  | @record offset len stop offsets announced rest ih =>
    cases rest with
    | done => simp
    | record announced' rest' =>
      rw [List.dropLast_cons_cons]
      rintro o (_ | ⟨_, ho⟩)
      · have hinside := header_of_announcedAt announced'
        exact ⟨len, announced, by omega⟩
      · exact ih o ho

/-- The records end within the bytes exactly if the last one does. -/
theorem Chain.stop_le_iff (chain : Chain bs start offsets stop) (inside : start ≤ bs.length) :
    stop ≤ bs.length ↔ ∀ last ∈ offsets.getLast?, WholeAt bs last := by
  induction chain with
  | done => simpa using inside
  | @record offset len stop offsets announced rest ih =>
    cases rest with
    | done =>
      simp only [List.getLast?_singleton, Option.mem_some_iff, forall_eq']
      constructor
      · exact fun h => ⟨len, announced, h⟩
      · rintro ⟨len', announced', h⟩
        cases announced.symm.trans announced'
        exact h
    | record announced' rest' =>
      have hinside := header_of_announcedAt announced'
      rw [List.getLast?_cons_cons]
      exact ih (by omega)

/-- There is no record exactly if there are no bytes for one. -/
theorem Chain.eq_nil_iff (chain : Chain bs start offsets stop) (hstop : bs.length ≤ stop) :
    offsets = [] ↔ bs.length ≤ start := by
  cases chain with
  | done => exact iff_of_true rfl hstop
  | record announced rest =>
    have hinside := header_of_announcedAt announced
    have hheader : headerLen = 26 := rfl
    refine iff_of_false (List.cons_ne_nil _ _) ?_
    omega

/-- Records that reach the end of the bytes fill them exactly if the last one is whole. -/
theorem Chain.fills_iff (chain : Chain bs start offsets stop) (inside : start ≤ bs.length)
    (hstop : bs.length ≤ stop) :
    Chain bs start offsets bs.length ↔ ∀ last ∈ offsets.getLast?, WholeAt bs last := by
  constructor
  · intro fills
    exact (fills.stop_le_iff inside).mp (Nat.le_refl _)
  · intro hlast
    obtain rfl : stop = bs.length := Nat.le_antisymm ((chain.stop_le_iff inside).mpr hlast) hstop
    exact chain

/-- The end of the last record is not far behind its offset. -/
theorem Chain.stop_lt (chain : Chain bs start offsets stop) {most : Nat} (hstart : start ≤ most)
    (hoffsets : ∀ o ∈ offsets, o ≤ most) : stop < most + 2 * Word.limit 4 := by
  induction chain with
  | done =>
    have hlimit : Word.limit 4 = 4294967296 := rfl
    omega
  | record announced rest ih =>
    have hlen := announcedLen_lt announced
    cases rest with
    | done => omega
    | record announced' rest' =>
      exact ih (hoffsets _ (List.mem_cons_of_mem _ List.mem_cons_self)) fun o ho =>
        hoffsets o (List.mem_cons_of_mem _ ho)

end Record

namespace Log

open Record

variable {fs : FileSystem} {log : Log} {v : View} {bs : Bytes} {offset len : Nat}

/-- A header that is there is read from the bytes, and one that is not is refused. -/
theorem announcedLenAt_eq_ok_iff (opens : v.Opens fs bs) (small : bs.length < View.signedLimit) :
    log.announcedLenAt fs v offset = .ok len ↔ announcedAt bs offset = .ok len := by
  rw [announcedLenAt]
  by_cases hinside : offset + headerLen ≤ bs.length
  · rw [GuardedFile.read_of_inside opens small hinside, ok_bind, mapError_eq_ok]
    rfl
  · rw [GuardedFile.read_of_outside opens (by omega)]
    refine iff_of_false (fun h => ?_) fun h => hinside (header_of_announcedAt h)
    cases h

/-- The loop gives the offsets of records that reach the end of the bytes. -/
theorem offsetsFrom_eq_ok_iff (opens : v.Opens fs bs) (small : bs.length < View.signedLimit)
    {offsets : List Nat} :
    log.offsetsFrom fs v offset = .ok offsets ↔
      ∃ stop, Chain bs offset offsets stop ∧ bs.length ≤ stop := by
  have hlength := opens.shows.length_eq
  induction offset using record_induction fs log v generalizing offsets with
  | turn offset ih =>
    rw [offsetsFrom_eq]
    by_cases hlt : offset < v.length
    · rw [if_pos hlt]
      constructor
      · intro h
        obtain ⟨len, hlen, h⟩ := bind_eq_ok.mp h
        cases hrest : log.offsetsFrom fs v (offset + len) with
        | error cause =>
          rw [hrest] at h
          cases h
        | ok rest =>
          rw [hrest] at h
          cases h
          obtain ⟨stop, chain, hstop⟩ := (ih len hlt hlen).mp hrest
          exact ⟨stop, .record ((announcedLenAt_eq_ok_iff opens small).mp hlen) chain, hstop⟩
      · rintro ⟨stop, _ | ⟨announced, rest⟩, hstop⟩
        · omega
        · have hlen : log.announcedLenAt fs v offset = .ok _ :=
            (announcedLenAt_eq_ok_iff opens small).mpr announced
          rw [hlen, ok_bind, (ih _ hlt hlen).mpr ⟨stop, rest, hstop⟩]
          rfl
    · rw [if_neg hlt]
      constructor
      · intro h
        cases h
        exact ⟨offset, .done offset, by omega⟩
      · rintro ⟨stop, _ | ⟨announced, -⟩, -⟩
        · rfl
        · have hinside := header_of_announcedAt announced
          have hheader : headerLen = 26 := rfl
          omega

theorem offsets_eq_ok_iff (runs : log.file.Runs fs bs) {offsets : List Nat} :
    log.offsets fs = .ok offsets ↔
      ∃ stop, Chain bs FileFormat.bodyStart offsets stop ∧ bs.length ≤ stop := by
  obtain ⟨v, hview, opens⟩ := runs.view
  rw [Log.offsets, GuardedFile.use_eq, if_pos runs.running, hview,
    ← offsetsFrom_eq_ok_iff opens runs.length_lt]
  simp only [Option.elim]
  cases log.offsetsFrom fs v FileFormat.bodyStart with
  | error cause =>
    constructor
    · rintro ⟨⟩
    · rintro ⟨⟩
  | ok found => exact Iff.rfl

/-- A record that goes beyond the bytes is not read. -/
theorem tupleAt_of_cut (runs : log.file.Runs fs bs) (announced : announcedAt bs offset = .ok len)
    (cut : bs.length < offset + len) :
    log.tupleAt fs offset = .error (.formatIn log.file.path (.range len offset bs.length)) := by
  obtain ⟨v, hview, opens⟩ := runs.view
  have hlen : log.announcedLenAt fs v offset = .ok len :=
    (announcedLenAt_eq_ok_iff opens runs.length_lt).mpr announced
  rw [tupleAt, GuardedFile.use_eq, if_pos runs.running, hview]
  simp only [Option.elim, hlen, ok_bind, readRecord, GuardedFile.read_of_outside opens cut]
  rfl

/-- The offsets that a running log tells are those of records one behind the other from the preamble
on, as far as the end of the file or beyond. There is none exactly if the file ends behind the
preamble. All records but the last are whole. The last one, and with it the end of the file, decides
whether the records fill the file; if it goes beyond, reading the record tells so. -/
theorem offsets_up_to_end {body : Bytes}
    (runs : log.file.Runs fs (FileFormat.tupleLog.magic ++ body)) (offsets : List Nat) :
    let file := FileFormat.tupleLog.magic ++ body
    (log.offsets fs = .ok offsets ↔
        ∃ stop, Chain file FileFormat.bodyStart offsets stop ∧ file.length ≤ stop) ∧
      (log.offsets fs = .ok offsets →
        (offsets = [] ↔ body = []) ∧
        (∀ o ∈ offsets.dropLast, WholeAt file o) ∧
        (Chain file FileFormat.bodyStart offsets file.length ↔
          ∀ last ∈ offsets.getLast?, WholeAt file last) ∧
        ∀ last ∈ offsets.getLast?, ¬ WholeAt file last →
          ∃ len, announcedAt file last = .ok len ∧
            log.tupleAt fs last =
              .error (.formatIn log.file.path (.range len last file.length))) := by
  intro file
  have hlength : file.length = FileFormat.bodyStart + body.length := by
    rw [List.length_append, FileFormat.length_magic]
  have hoffsets : log.offsets fs = .ok offsets ↔
      ∃ stop, Chain file FileFormat.bodyStart offsets stop ∧ file.length ≤ stop :=
    offsets_eq_ok_iff runs
  refine ⟨hoffsets, fun h => ?_⟩
  obtain ⟨stop, chain, hstop⟩ := hoffsets.mp h
  refine ⟨?_, chain.whole_of_mem_dropLast, chain.fills_iff (by omega) hstop, ?_⟩
  · rw [chain.eq_nil_iff hstop, hlength, ← List.length_eq_zero_iff]
    omega
  · intro last hlast hcut
    obtain ⟨len, announced⟩ := chain.exists_announced last (List.mem_of_getLast? hlast)
    refine ⟨len, announced, tupleAt_of_cut runs announced ?_⟩
    by_contra hle
    exact hcut ⟨len, announced, Nat.not_lt.mp hle⟩

/-- A log of these bytes behind the preamble, mapped, while it runs. -/
def mapped (body : Bytes) : Log :=
  ⟨⟨.tupleLog, ⟨"x.sst"⟩, .mapped, ⟨.running, 0, none⟩,
    some (.mapped (FileFormat.tupleLog.magic ++ body))⟩⟩

theorem runs_mapped (body : Bytes)
    (small : (FileFormat.tupleLog.magic ++ body).length < View.signedLimit) :
    (mapped body).file.Runs FileSystem.empty (FileFormat.tupleLog.magic ++ body) :=
  have room : 0 + 1 < Word.limit 8 := by decide
  ⟨rfl, room, ⟨_, rfl, .mapped⟩, small⟩

/-- A tuple whose record is a header and a key of one byte. -/
def keyed : Tuple := ⟨"a", Box.fullSpace, [], 0, 0⟩

theorem announcedAt_keyed (key : Bytes) :
    announcedAt (FileFormat.tupleLog.magic ++ (header keyed ++ key)) FileFormat.bodyStart =
      .ok 27 :=
  announcedAt_header ⟨by decide, by decide, by decide⟩ FileFormat.tupleLog.magic key

/-- The record with its key is whole, and fills the file. -/
theorem offsets_up_to_end_keyed :
    (mapped (header keyed ++ [97])).offsets FileSystem.empty = .ok [10] ∧
      Chain (FileFormat.tupleLog.magic ++ (header keyed ++ [97])) FileFormat.bodyStart [10] 37 := by
  have announced := announcedAt_keyed [97]
  obtain ⟨hoffsets, hfile⟩ :=
    offsets_up_to_end (runs_mapped (header keyed ++ [97]) (by decide)) [10]
  have hten := hoffsets.mpr ⟨37, .record announced (.done 37), by decide⟩
  obtain ⟨-, -, htiled, -⟩ := hfile hten
  refine ⟨hten, htiled.mpr ?_⟩
  rintro _ ⟨⟩
  exact ⟨27, announced, by decide⟩

/-- Without its key the record is not whole, and the log tells its offset all the same. -/
theorem offset_of_cut_record :
    let file := FileFormat.tupleLog.magic ++ header keyed
    (mapped (header keyed)).file.Runs FileSystem.empty file ∧
      (mapped (header keyed)).offsets FileSystem.empty = .ok [10] ∧
      ¬ WholeAt file 10 ∧ ¬ Chain file FileFormat.bodyStart [10] file.length ∧
      (mapped (header keyed)).tupleAt FileSystem.empty 10 =
        .error (.formatIn ⟨"x.sst"⟩ (.range 27 10 36)) := by
  intro file
  have runs := runs_mapped (header keyed) (by decide)
  have announced : announcedAt file 10 = .ok 27 := by
    have h := announcedAt_keyed []
    rwa [List.append_nil] at h
  have hcut : ¬ WholeAt file 10 := by
    rintro ⟨len, announced', hle⟩
    cases announced.symm.trans announced'
    exact absurd hle (by decide)
  refine ⟨runs, ?_, hcut, fun chain => ?_, tupleAt_of_cut runs announced (by decide)⟩
  · exact (offsets_eq_ok_iff runs).mpr ⟨37, .record announced (.done 37), by decide⟩
  · exact hcut ((chain.fills_iff (by decide) (Nat.le_refl _)).mp chain 10 rfl)

end Log

end SpatialSegment
