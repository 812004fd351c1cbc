import SpatialSegment.Proofs.Checked.Image
import SpatialSegment.Proofs.Checked.Insertion
import SpatialSegment.Proofs.Segment.Cleanup

/-!
# Writing on a machine

The steps of writing a segment are written for the machine as well. Summary and records count and
add lengths, the spatial index is built and written, and a filter that cannot be built crashes. That
is the one place: what memory holds can be counted, a record that the log takes has short lengths,
and the log has room for so few records that neither the numbers of the index nor the words for
lengths run out. So the checked steps end as the plain ones do, and crash where these break off.
-/

namespace SpatialSegment

open Machine

/-! ## Summary and records -/

/-- The least box around both, if they have one. -/
def Box.checkedMerge (a b : Box) : Checked ArgumentFault Box :=
  if !a.isFullSpace && !b.isFullSpace && a.dimension != b.dimension then
    throw (.mixedDimensions a.dimension b.dimension)
  else liftM (a.checkedUnion b)

theorem Box.checkedMerge_eq (a b : Box) : a.checkedMerge b = Checked.of (a.merge b) := by
  rw [checkedMerge, merge]
  by_cases hmixed : (!a.isFullSpace && !b.isFullSpace && a.dimension != b.dimension) = true
  · rw [if_pos hmixed, if_pos hmixed]
    rfl
  · have hsame : (a.isFullSpace || b.isFullSpace || a.dimension == b.dimension) = true := by
      simp only [Bool.and_eq_true, Bool.not_eq_true', bne_iff_ne, not_and, not_not] at hmixed
      simp only [Bool.or_eq_true, beq_iff_eq]
      cases ha : a.isFullSpace with
      | true => exact Or.inl (Or.inl rfl)
      | false =>
        cases hb : b.isFullSpace with
        | true => exact Or.inl (Or.inr rfl)
        | false => exact Or.inr (hmixed ⟨ha, hb⟩)
    rw [if_neg hmixed, if_neg hmixed, checkedUnion, if_pos hsame]
    rfl

namespace Summary

def Draft.checkedAdd (d : Draft) (t : Tuple) : Checked ArgumentFault Draft := do
  let box ← d.box.checkedMerge t.box
  let tuples ← (Machine.add d.tuples.toNat 1 : Machine Nat)
  return { tuples := UInt64.ofNat tuples
           times := some (match d.times with
             | none => Times.ofTuple t
             | some times => times.add t)
           box }

def checkedOfTuples (tuples : List Tuple) : Checked ArgumentFault Summary := do
  let draft ← tuples.foldlM Draft.checkedAdd Draft.empty
  return draft.finish

theorem Draft.checkedAdd_eq {d : Draft} (h : d.tuples.toNat + 1 < Word.limit 8) (t : Tuple) :
    d.checkedAdd t = Checked.of (d.add t) := by
  rw [checkedAdd, add]
  refine Checked.bind_eq (Box.checkedMerge_eq _ _) fun box _ => ?_
  rw [Machine.add_eq h, Checked.lift_bind]
  have hcount : UInt64.ofNat (d.tuples.toNat + 1) = d.tuples + 1 := by
    rw [UInt64.ofNat_add, UInt64.ofNat_toNat]
    rfl
  rw [hcount]
  rfl

/-- The count grows by one with each tuple. -/
theorem foldlM_checkedAdd {tuples : List Tuple} {d : Draft}
    (few : d.tuples.toNat + tuples.length < Word.limit 8) :
    tuples.foldlM Draft.checkedAdd d = Checked.of (tuples.foldlM Draft.add d) := by
  induction tuples generalizing d with
  | nil => rfl
  | cons t tuples ih =>
    rw [List.length_cons] at few
    rw [List.foldlM_cons, List.foldlM_cons]
    refine Checked.bind_eq (Draft.checkedAdd_eq (by omega) t) fun d' hadd => ih ?_
    have hlimit8 : Word.limit 8 = 2 ^ 64 := rfl
    have hcount : (d.tuples + 1).toNat = d.tuples.toNat + 1 := by
      rw [UInt64.toNat_add]
      exact Nat.mod_eq_of_lt (show d.tuples.toNat + 1 < 2 ^ 64 by omega)
    rw [tuples_of_add hadd, hcount]
    omega

/-- Tuples that memory holds are counted. -/
theorem checkedOfTuples_eq {tuples : List Tuple} (few : tuples.length < Word.limit 8) :
    checkedOfTuples tuples = Checked.of (ofTuples tuples) := by
  have hzero : Draft.empty.tuples.toNat = 0 := rfl
  rw [checkedOfTuples, foldlM_checkedAdd (by omega), ofTuples]
  cases tuples.foldlM Draft.add Draft.empty <;> rfl

end Summary

namespace Record

def checkedStoredLen (t : Tuple) : Machine Nat := do
  let keyEnd ← add headerLen (Text.bytes t.key).length
  let boxLen ← t.box.checkedStoredLen
  let boxEnd ← add keyEnd boxLen
  add boxEnd t.payload.length

/-- The record of a tuple. The room that it takes is counted before it is written. -/
def checkedEncode (t : Tuple) : Checked ArgumentFault Bytes := do
  let key := Text.bytes t.key
  if key = [] then throw .emptyKey
  if Word.maxSigned16 < key.length then throw (.longKey key.length)
  let boxBytes ← t.box.checkedStoredLen
  let boxLen ← Checked.of (lengthWord "bounding box" boxBytes)
  let payloadLen ← Checked.of (lengthWord "payload" t.payload.length)
  let _ ← (checkedStoredLen t : Machine Nat)
  return Word.big 2 key.length ++ boxLen ++ payloadLen ++
    Word.big 8 t.version.toUInt64.toNat ++ Word.big 8 t.received.toUInt64.toNat ++
    key ++ t.box.toBytes ++ t.payload

variable {t : Tuple}

/-- A record with a key and lengths that its header holds is short. -/
theorem Fits.storedLen_lt (fits : Fits t) : storedLen t < 2 * Word.limit 4 := by
  have hkey := fits.key_le
  have hbox := fits.box_le
  have hpayload := fits.payload_le
  have hmax16 : Word.maxSigned16 = 32767 := rfl
  have hmax32 : Word.maxSigned32 = 2147483647 := rfl
  have hlimit4 : Word.limit 4 = 4294967296 := rfl
  rw [storedLen, headerLen]
  omega

theorem checkedStoredLen_eq (fits : Fits t) : checkedStoredLen t = pure (storedLen t) := by
  have hlt := fits.storedLen_lt
  have hlimit4 : Word.limit 4 = 4294967296 := rfl
  have hlimit8 : Word.limit 8 = 18446744073709551616 := rfl
  rw [storedLen] at hlt
  rw [checkedStoredLen, add_eq (by omega), pure_bind, Box.checkedStoredLen_eq (by omega), pure_bind,
    add_eq (by omega), pure_bind, add_eq (by omega), storedLen]

/-- A box that memory holds has a length. -/
theorem checkedEncode_eq (wide : t.box.storedLen < Word.limit 8) :
    checkedEncode t = Checked.of (encode t) := by
  rw [checkedEncode, encode]
  by_cases hempty : Text.bytes t.key = []
  · rw [if_pos hempty, if_pos hempty]
    rfl
  · rw [if_neg hempty, if_neg hempty]
    by_cases hlong : Word.maxSigned16 < (Text.bytes t.key).length
    · simp only [if_pos hlong]
      rfl
    · simp only [if_neg hlong]
      rw [Box.checkedStoredLen_eq wide, Checked.lift_bind]
      refine Checked.bind_eq rfl fun boxLen hbox => ?_
      refine Checked.bind_eq rfl fun payloadLen hpayload => ?_
      have fits : Fits t := ⟨Nat.not_lt.mp hlong, (lengthWord_eq_ok_iff.mp hbox).1,
        (lengthWord_eq_ok_iff.mp hpayload).1⟩
      rw [checkedStoredLen_eq fits, Checked.lift_bind]
      rfl

end Record

/-! ## Steps that change files -/

/-- Steps of a machine that change files. -/
abbrev CheckedWriting := ExceptT Failure (StateT FileSystem Machine)

namespace CheckedWriting

variable {α β : Type}

/-- What certainly comes to its end. -/
def of (steps : Writing α) : CheckedWriting α :=
  ExceptT.mk fun fs => pure (steps.run.run fs)

def ofChecked (steps : Checked SegmentError α) : CheckedWriting α :=
  ExceptT.mk fun fs => do
    let result ← steps.run
    return (result.mapError .error, fs)

/-- Steps after which an error is followed by others. -/
def onError (steps : CheckedWriting α) (after : FileSystem → FileSystem) : CheckedWriting α :=
  ExceptT.mk fun fs => do
    match ← steps.run.run fs with
    | (.error (.error cause), fs) => return (.error (.error cause), after fs)
    | done => return done

/-- How the machine ends where plain steps have ended: it crashes where they have broken off. -/
def ended : Except Failure α × FileSystem → Machine (Except Failure α × FileSystem)
  | (.error .aborted, _) => throw .panic
  | done => pure done

theorem ended_of_ne {result : Except Failure α} {left : FileSystem} (h : result ≠ .error .aborted) :
    ended (result, left) = pure (result, left) := by
  cases result with
  | error failure =>
    cases failure with
    | error cause => rfl
    | aborted => exact absurd rfl h
  | ok a => rfl

end CheckedWriting

/-- From these files the checked steps end as the plain ones do, and crash where they break off. -/
def WriteEndsAs {α : Type} (fs : FileSystem) (steps : CheckedWriting α) (plain : Writing α) :
    Prop :=
  steps.run.run fs = CheckedWriting.ended (plain.run.run fs)

namespace WriteEndsAs

open CheckedWriting

variable {α β : Type} {fs : FileSystem} {steps : CheckedWriting α} {plain : Writing α}

/-- The steps after a step go on from its value and from what it has changed. -/
theorem bind {next : α → CheckedWriting β} {further : α → Writing β}
    (ends : WriteEndsAs fs steps plain)
    (rest : ∀ a left, plain.run.run fs = (.ok a, left) → WriteEndsAs left (next a) (further a)) :
    WriteEndsAs fs (steps >>= next) (plain >>= further) := by
  have hrun : (steps >>= next).run.run fs =
      steps.run.run fs >>= fun p => (ExceptT.bindCont next p.1).run p.2 := rfl
  rw [WriteEndsAs, hrun, ends, run_bind]
  cases hplain : plain.run.run fs with
  | mk result left =>
    cases result with
    | error failure => cases failure <;> rfl
    | ok a => exact rest a left hplain

/-- Steps that look at the files first. -/
theorem get {next : FileSystem → CheckedWriting α} {further : FileSystem → Writing α}
    (h : WriteEndsAs fs (next fs) (further fs)) :
    WriteEndsAs fs (MonadState.get >>= next) (MonadState.get >>= further) := h

theorem of_ne_aborted (h : (plain.run.run fs).1 ≠ .error .aborted) :
    WriteEndsAs fs (of plain) plain := by
  change pure (plain.run.run fs) = ended (plain.run.run fs)
  exact (ended_of_ne h).symm

theorem of_safe (safe : Writing.Safe (fun _ => True) False plain) :
    WriteEndsAs fs (of plain) plain :=
  of_ne_aborted fun h => (safe fs trivial).2 h

theorem file (path : Path) (bs : Bytes) :
    WriteEndsAs fs (of (Writing.file path bs)) (Writing.file path bs) :=
  .of_safe (Writing.safe_file (fun _ _ => trivial) path bs)

theorem ofResult (result : Result α) :
    WriteEndsAs fs (of (Writing.ofResult result)) (Writing.ofResult result) :=
  .of_safe (Writing.safe_ofResult result)

theorem ofChecked {steps : Checked SegmentError α} {result : Result α}
    (h : steps = Checked.of result) :
    WriteEndsAs fs (CheckedWriting.ofChecked steps) (Writing.ofResult result) := by
  subst h
  cases result <;> rfl

/-- What follows an error follows it on the machine. -/
theorem onError (ends : WriteEndsAs fs steps plain) (after : FileSystem → FileSystem) :
    WriteEndsAs fs (CheckedWriting.onError steps after) (Writing.onError plain after) := by
  have hrun : (CheckedWriting.onError steps after).run.run fs =
      steps.run.run fs >>= fun done => match done with
        | (.error (.error cause), left) => pure (.error (.error cause), after left)
        | done => pure done := rfl
  rw [WriteEndsAs, hrun, ends, Writing.run_onError]
  cases plain.run.run fs with
  | mk result left =>
    cases result with
    | error failure => cases failure <;> rfl
    | ok a => rfl

/-- A step of the machine that comes to its end takes no part. -/
theorem lift {step : Machine α} {a : α} (h : step = pure a) {next : α → CheckedWriting β}
    {plain : Writing β} (rest : WriteEndsAs fs (next a) plain) :
    WriteEndsAs fs ((liftM step : CheckedWriting α) >>= next) plain := by
  subst h
  exact rest

end WriteEndsAs

namespace Segment

open CheckedWriting

/-- The records from an offset on up to the first that cannot be written, and the offsets of all, if
all can be. -/
def checkedRecords (path : Path) (offset : Nat) : List Tuple → Machine (Bytes × Result (List Nat))
  | [] => return ([], .ok [])
  | t :: rest => do
    if Word.maxSigned32 < offset then return ([], .error (.invalidArgument (.logLength path)))
    else
      match ← (Record.checkedEncode t).run with
      | .error cause => return ([], .error (.invalidArgument cause))
      | .ok record =>
        let next ← add offset record.length
        let (more, offsets) ← checkedRecords path next rest
        return (record ++ more, offsets.map (offset :: ·))

def checkedWriteLog (path : Path) (tuples : List Tuple) : CheckedWriting (List Nat) := do
  let written ← (checkedRecords path FileFormat.bodyStart tuples :
    Machine (Bytes × Result (List Nat)))
  of (Writing.file path (FileFormat.tupleLog.magic ++ written.1))
  of (Writing.ofResult written.2)

/-- The room for the words is counted before they are written. -/
def checkedWriteIndex (path : Path) (offsets : List Nat) : CheckedWriting Unit := do
  let _ ← (mul offsets.length 4 : Machine Nat)
  of (writeIndex path offsets)

def checkedWriteSpatialIndex (path : Path) (t : RTree) : CheckedWriting Unit := do
  let image ← (t.checkedImage : Machine (Bytes × Except SegmentError Unit))
  of (Writing.file path image.1)
  of (Writing.ofResult image.2)

def checkedWriteFilter (path : Path) (seed : Bytes) (keys : List String) (rate : Float) :
    CheckedWriting Unit := do
  match Filter.build? seed keys keys.length rate with
  | some filter => of (Writing.file path filter.toBytes)
  | none => liftM (throw .panic : Machine Unit)

/-- The five files of sorted tuples. -/
def checkedWriteAll (files : SegmentPaths) (table : TableName) (number : UInt64) (config : Config)
    (tree : RTree) (seed : Bytes) (tuples : List Tuple) : CheckedWriting Unit := do
  let summary ← ofChecked (ExceptT.adapt .invalidArgument (Summary.checkedOfTuples tuples))
  let offsets ← checkedWriteLog files.log tuples
  checkedWriteIndex files.keyIndex offsets
  let grown ← (tree.checkedInsertAll true (spatialEntries tuples offsets) : Machine (RTree × Bool))
  if !grown.2 then
    throw (.error (.invalidArgument (.segmentDimensions number table.text)))
  checkedWriteSpatialIndex files.spatialIndex grown.1
  if config.useFilter then
    checkedWriteFilter files.filter seed (tuples.map Tuple.key) config.filterRate
  of (Writing.file files.summary summary.toBytes)

/-- Writes the segment with the number and gives the paths of its files. -/
def checkedWrite (base : Path) (table : TableName) (number : UInt64) (config : Config)
    (seed : Bytes) (tuples : List Tuple) : CheckedWriting SegmentPaths := do
  let files := SegmentPaths.ofNumber table base number
  if (← get).isPresent files.log then
    throw (.error (.invalidOperation (.segmentExists number table.text)))
  let tree ← of (Writing.ofResult
    ((RTree.ofMaxNodeSize config.maxNodeSize).mapError .invalidArgument))
  of (makeDirectory (table.directory base))
  CheckedWriting.onError (checkedWriteAll files table number config tree seed (sorted tuples))
    (removeAll · files.toList)
  return files

variable {fs : FileSystem} {order tuples : List Tuple}

theorem checkedRecords_eq (path : Path) (wide : ∀ t ∈ order, t.box.storedLen < Word.limit 8)
    (offset : Nat) : checkedRecords path offset order = pure (records path offset order) := by
  induction order generalizing offset with
  | nil => rfl
  | cons t order ih =>
    obtain ⟨ht, wide⟩ := List.forall_mem_cons.mp wide
    rw [checkedRecords, records]
    by_cases hlong : Word.maxSigned32 < offset
    · rw [if_pos hlong, if_pos hlong]
    · rw [if_neg hlong, if_neg hlong, Record.checkedEncode_eq ht]
      change (pure (Record.encode t) >>= _) = _
      rw [pure_bind]
      cases hencode : Record.encode t with
      | error cause => rfl
      | ok record =>
        obtain ⟨storable, rfl⟩ := Record.encode_eq_ok_iff.mp hencode
        have hlt := storable.toFits.storedLen_lt
        have hmax32 : Word.maxSigned32 = 2147483647 := rfl
        have hlimit4 : Word.limit 4 = 4294967296 := rfl
        have hlimit8 : Word.limit 8 = 18446744073709551616 := rfl
        dsimp only
        rw [add_eq (by rw [Record.length_stored]; omega), pure_bind, ih wide, pure_bind]

theorem endsAs_writeLog (path : Path) (wide : ∀ t ∈ order, t.box.storedLen < Word.limit 8) :
    WriteEndsAs fs (checkedWriteLog path order) (writeLog path order) := by
  refine .lift (checkedRecords_eq path wide _) ?_
  exact WriteEndsAs.bind (.file _ _) fun _ _ _ => .ofResult _

/-- The log has room for few records: each takes 26 bytes at least, and the last begins where a
signed word of four bytes leads. -/
theorem few_of_recorded {offset : Nat} (recorded : Recorded offset order) :
    8 * order.length ≤ Word.limit 4 := by
  have hroom : ∀ {offset : Nat} {t : Tuple} {rest : List Tuple}, Recorded offset (t :: rest) →
      offset + 26 * rest.length ≤ Word.maxSigned32 := by
    intro offset t rest recorded
    induction rest generalizing offset t with
    | nil => exact recorded.offset_le _ List.mem_cons_self
    | cons u rest ih =>
      have hrest : Recorded (offset + Record.storedLen t) (u :: rest) :=
        ⟨fun x hx => recorded.storable x (List.mem_cons_of_mem _ hx),
          fun o ho => recorded.offset_le o (List.mem_cons_of_mem _ ho)⟩
      have hle := ih hrest
      rw [Record.storedLen, Record.headerLen] at hle
      rw [List.length_cons]
      omega
  cases order with
  | nil => exact Nat.zero_le _
  | cons t rest =>
    have hle := hroom recorded
    have hmax32 : Word.maxSigned32 = 2147483647 := rfl
    have hlimit4 : Word.limit 4 = 4294967296 := rfl
    rw [List.length_cons]
    omega

theorem endsAs_writeIndex (path : Path) {offsets : List Nat}
    (few : 8 * offsets.length ≤ Word.limit 4) :
    WriteEndsAs fs (checkedWriteIndex path offsets) (writeIndex path offsets) := by
  have hlimit4 : Word.limit 4 = 4294967296 := rfl
  have hlimit8 : Word.limit 8 = 18446744073709551616 := rfl
  refine .lift (mul_eq (by omega)) (.of_safe ?_)
  exact Writing.safe_writeIndex (fun _ _ => trivial) path offsets

theorem endsAs_writeSpatialIndex (path : Path) {t : RTree} (h : t.checkedImage = pure t.image) :
    WriteEndsAs fs (checkedWriteSpatialIndex path t) (writeSpatialIndex path t) := by
  have hsteps : (writeSpatialIndex path t).run.run fs =
      (Writing.file path t.image.1 >>= fun _ => Writing.ofResult t.image.2).run.run fs := by
    rw [run_writeSpatialIndex, run_bind, Writing.run_file]
    cases fs.write path t.image.1 <;> rfl
  rw [WriteEndsAs, hsteps]
  exact WriteEndsAs.lift h (WriteEndsAs.bind (.file _ _) fun _ _ _ => .ofResult _)

theorem endsAs_writeFilter (path : Path) (seed : Bytes) (keys : List String) (rate : Float) :
    WriteEndsAs fs (checkedWriteFilter path seed keys rate) (writeFilter path seed keys rate) := by
  unfold checkedWriteFilter writeFilter
  cases Filter.build? seed keys keys.length rate with
  | none => rfl
  | some filter => exact .file _ _

theorem exists_tuple_of_spatialEntries {offsets : List Nat} {e : Entry}
    (he : e ∈ spatialEntries order offsets) : ∃ t ∈ order, e.box = t.box := by
  obtain ⟨⟨t, offset⟩, hmem, hentry⟩ := List.mem_filterMap.mp he
  dsimp only at hentry
  split at hentry
  · cases hentry
  · cases hentry
    exact ⟨t, (List.of_mem_zip hmem).1, rfl⟩

theorem length_spatialEntries_le (order : List Tuple) (offsets : List Nat) :
    (spatialEntries order offsets).length ≤ order.length := by
  refine (List.length_filterMap_le _ _).trans ?_
  rw [List.length_zip]
  exact Nat.min_le_left _ _

/-- The spatial index of tuples that have come into the log is written without a crash. -/
theorem checkedImage_of_recorded {offset maxNodeSize : Nat} {two_le : 2 ≤ maxNodeSize}
    {full : RTree} (recorded : Recorded offset order)
    (hinsert : (RTree.empty maxNodeSize two_le).insertAll
      (spatialEntries order (recordOffsets offset order)) = (full, true)) :
    full.checkedImage = pure full.image := by
  obtain ⟨fullSound, hperm⟩ := (RTree.sound_empty maxNodeSize two_le).insertAll hinsert
  refine fullSound.checkedImage_eq (fun e he => ?_) ?_
  · obtain ⟨t, ht, hbox⟩ := exists_tuple_of_spatialEntries (hperm.subset he)
    rw [hbox]
    exact (recorded.storable t ht).box_le
  · have hle := length_spatialEntries_le order (recordOffsets offset order)
    rw [fullSound.counted, hperm.length_eq]
    exact (Nat.mul_le_mul_left 8 hle).trans (few_of_recorded recorded)

/-- The five files of tuples that memory holds. -/
theorem endsAs_writeAll (fs : FileSystem) (files : SegmentPaths) (table : TableName)
    (number : UInt64) (config : Config) (two_le : 2 ≤ config.maxNodeSize) (seed : Bytes)
    (few : order.length < Word.limit 8) (wide : ∀ t ∈ order, t.box.storedLen < Word.limit 8) :
    WriteEndsAs fs
      (checkedWriteAll files table number config (RTree.empty config.maxNodeSize two_le) seed order)
      (writeAll files table number config (RTree.empty config.maxNodeSize two_le) seed order) := by
  unfold checkedWriteAll writeAll
  refine WriteEndsAs.bind (.ofChecked ?_) fun summary _ _ => ?_
  · rw [Summary.checkedOfTuples_eq few]
    rfl
  refine WriteEndsAs.bind (endsAs_writeLog _ wide) fun offsets _ hlog => ?_
  obtain ⟨rfl, recorded, -⟩ := of_writeLog hlog
  have hfew := few_of_recorded recorded
  refine WriteEndsAs.bind (endsAs_writeIndex _ (by rwa [length_recordOffsets])) fun _ _ _ => ?_
  have hlimit4 : Word.limit 4 = 4294967296 := rfl
  have hentries := length_spatialEntries_le order (recordOffsets FileFormat.bodyStart order)
  have hempty : (RTree.empty config.maxNodeSize two_le).length = 0 := rfl
  have sound := RTree.sound_empty config.maxNodeSize two_le
  refine WriteEndsAs.lift (sound.checkedInsertAll_eq _ (by omega)) ?_
  cases hinsert : (RTree.empty config.maxNodeSize two_le).insertAll
      (spatialEntries order (recordOffsets FileFormat.bodyStart order)) with
  | mk full all =>
    cases all with
    | false => rfl
    | true =>
      have himage := checkedImage_of_recorded recorded hinsert
      refine WriteEndsAs.bind (endsAs_writeSpatialIndex _ himage) fun _ _ _ => ?_
      cases config.useFilter with
      | false => exact .file _ _
      | true => exact WriteEndsAs.bind (endsAs_writeFilter _ _ _ _) fun _ _ _ => .file _ _

theorem endsAs_makeDirectory (directory : Path) :
    WriteEndsAs fs (of (makeDirectory directory)) (makeDirectory directory) := by
  refine .of_ne_aborted fun h => ?_
  rw [run_makeDirectory] at h
  cases hmade : (fs.makeDirectories directory).1 with
  | error cause =>
    rw [hmade] at h
    cases h
  | ok _ =>
    rw [hmade] at h
    cases h

/-- However a call ends, it ends so on a machine whose memory holds the tuples, and the machine
crashes where the call breaks off. -/
theorem endsAs_write (base : Path) (table : TableName) (number : UInt64) (config : Config)
    (seed : Bytes) (few : tuples.length < Word.limit 8)
    (wide : ∀ t ∈ tuples, t.box.storedLen < Word.limit 8) :
    WriteEndsAs fs (checkedWrite base table number config seed tuples)
      (write base table number config seed tuples) := by
  unfold checkedWrite write
  refine WriteEndsAs.get ?_
  cases fs.isPresent (SegmentPaths.ofNumber table base number).log with
  | true => rfl
  | false =>
    refine WriteEndsAs.bind (.ofResult _) fun tree _ htree => ?_
    obtain ⟨hnew, -⟩ := Writing.of_ofResult htree
    rw [mapError_eq_ok, RTree.ofMaxNodeSize] at hnew
    by_cases two_le : 2 ≤ config.maxNodeSize
    · rw [dif_pos two_le] at hnew
      cases hnew
      refine WriteEndsAs.bind (endsAs_makeDirectory _) fun _ made _ => ?_
      have hlength : (sorted tuples).length < Word.limit 8 := by
        rwa [sorted, List.length_mergeSort]
      have ends := endsAs_writeAll made (SegmentPaths.ofNumber table base number) table number
        config two_le seed hlength fun t ht => wide t (List.mem_mergeSort.mp ht)
      exact (ends.onError _).bind fun _ _ _ => rfl
    · rw [dif_neg two_le] at hnew
      cases hnew

end Segment

end SpatialSegment
