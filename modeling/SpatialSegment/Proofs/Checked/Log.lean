import SpatialSegment.Log
import SpatialSegment.Proofs.Checked.Guarded
import SpatialSegment.Proofs.Checked.Record

/-!
# The log is read without a crash

Each read of a log that runs comes to its end, from any offset and whatever the log holds. The loops
go on by the lengths that the headers tell. Such a length is never 0, and its sum with an offset
within the file is not beyond the words.
-/

namespace SpatialSegment

open Machine

namespace Log

/-- The length of the record at an offset, as its header tells. -/
def checkedAnnouncedLenAt (fs : FileSystem) (log : Log) (view : View) (offset : Nat) :
    Checked SegmentError Nat := do
  let header ← log.file.checkedRead fs view offset Record.headerLen
  ExceptT.adapt (log.faultAt offset) (Record.checkedAnnouncedLen header)

/-- The tuple at an offset, and the offset behind its record. -/
def checkedDecodeAt (fs : FileSystem) (log : Log) (view : View) (offset : Nat) :
    Checked SegmentError (Tuple × Nat) := do
  let len ← log.checkedAnnouncedLenAt fs view offset
  let record ← log.file.checkedRead fs view offset len
  let tuple ← ExceptT.adapt (log.faultAt offset) (Prod.fst <$> Record.checkedDecode record 0)
  let next ← add offset len
  return (tuple, next)

def checkedTupleAt (fs : FileSystem) (log : Log) (offset : Nat) :
    Checked SegmentError (Option Tuple) :=
  log.file.checkedUse fun view => do
    let (tuple, _) ← log.checkedDecodeAt fs view offset
    return tuple

def checkedKeyAt (fs : FileSystem) (log : Log) (offset : Nat) :
    Checked SegmentError (Option String) :=
  log.file.checkedUse fun view => do
    let header ← log.file.checkedRead fs view offset Record.headerLen
    let raw ← range header 0 2
    let keyLen := Word.signed 2 (Word.ofBig raw)
    if keyLen < 0 then throw (.formatIn log.file.path (.keyLength keyLen offset))
    else do
      let len ← add Record.headerLen keyLen.toNat
      let record ← log.file.checkedRead fs view offset len
      ExceptT.adapt (log.faultAt offset) (Prod.fst <$> Record.checkedPeekKey record 0)

/-- Searches the records from an offset on. -/
def checkedScanFrom (fs : FileSystem) (log : Log) (view : View) (key : String) (offset : Nat) :
    Checked SegmentError (Option Tuple) :=
  if offset < view.length then do
    let (tuple, next) ← log.checkedDecodeAt fs view offset
    match Text.compare tuple.key key with
    | .eq => return some tuple
    | .gt => return none
    | .lt => log |>.checkedScanFrom fs view key next
  else return none
partial_fixpoint

def checkedScan (fs : FileSystem) (log : Log) (key : String) :
    Checked SegmentError (Option Tuple) := do
  let found ← log.file.checkedUse fun view =>
    log.checkedScanFrom fs view key FileFormat.bodyStart
  return found.join

/-- The offsets of the records from one on, as their headers tell. -/
def checkedOffsetsFrom (fs : FileSystem) (log : Log) (view : View) (offset : Nat) :
    Checked SegmentError (List Nat) :=
  if offset < view.length then do
    let len ← log.checkedAnnouncedLenAt fs view offset
    let next ← add offset len
    let offsets ← log |>.checkedOffsetsFrom fs view next
    return offset :: offsets
  else return []
partial_fixpoint

def checkedOffsets (fs : FileSystem) (log : Log) : Checked SegmentError (List Nat) := do
  let found ← log.file.checkedUse fun view => log.checkedOffsetsFrom fs view FileFormat.bodyStart
  return found.getD []

variable {fs : FileSystem} {log : Log} {v : View} {bs : Bytes}

theorem isFormat_faultAt (offset : Nat) (cause : FormatFault) :
    (log.faultAt offset cause).isFormat = true := rfl

theorem endsAs_announcedLenAt (opens : v.Opens fs bs) (small : bs.length < View.signedLimit)
    (offset : Nat) :
    EndsAs (log.checkedAnnouncedLenAt fs v offset) (log.announcedLenAt fs v offset) := by
  have hlimit : Word.limit 8 = 2 * View.signedLimit := rfl
  refine (GuardedFile.endsAs_read opens small offset _).bind fun header hheader => ?_
  have hlength := GuardedFile.length_of_read opens small hheader
  exact .adapt (Record.checkedAnnouncedLen_eq (by omega)) (isFormat_faultAt offset)

/-- The steps behind a record go on with its tuple and from the offset behind it. The record lies
within the file, so a word holds that offset. -/
theorem endsAs_decodeAt_bind (opens : v.Opens fs bs) (small : bs.length < View.signedLimit)
    {offset : Nat} {α : Type} {next : Tuple × Nat → Checked SegmentError α}
    {further : Nat → Tuple → Result α}
    (rest : ∀ len tuple, log.announcedLenAt fs v offset = .ok len →
      EndsAs (next (tuple, offset + len)) (further len tuple)) :
    EndsAs (log.checkedDecodeAt fs v offset >>= next) (do
      let len ← log.announcedLenAt fs v offset
      let tuple ← log.readRecord fs v offset len
      further len tuple) := by
  have hlimit : Word.limit 8 = 2 * View.signedLimit := rfl
  rw [checkedDecodeAt]
  simp only [readRecord, bind_assoc]
  refine (endsAs_announcedLenAt opens small offset).bind fun len hlen => ?_
  refine (GuardedFile.endsAs_read opens small offset len).bind fun record hrecord => ?_
  obtain ⟨hlength, hinside⟩ := GuardedFile.length_of_read opens small hrecord
  refine EndsAs.bind (.adapt ?_ (isFormat_faultAt offset)) fun tuple _ => ?_
  · rw [Record.checkedDecode_eq (by omega), Checked.map_of]
  · rw [add_eq (by omega), Checked.lift_bind]
    exact rest len tuple hlen

/-- A length that a header tells may lead beyond the file, but not beyond a word. -/
theorem announcedLenAt_lt {offset len : Nat} (h : log.announcedLenAt fs v offset = .ok len) :
    len < 2 * Word.limit 4 := by
  obtain ⟨header, -, h⟩ := bind_eq_ok.mp h
  exact Record.announcedLen_lt (mapError_eq_ok.mp h)

theorem scanFrom_eq (key : String) (offset : Nat) :
    log.scanFrom fs v key offset =
      if offset < v.length then do
        let len ← log.announcedLenAt fs v offset
        let tuple ← log.readRecord fs v offset len
        match Text.compare tuple.key key with
        | .eq => return some tuple
        | .gt => return none
        | .lt => log.scanFrom fs v key (offset + len)
      else return none := by
  rw [scanFrom]
  by_cases hlt : offset < v.length
  · rw [if_pos hlt, if_pos hlt]
    split
    · rename_i hlen
      rw [hlen]
      rfl
    · rename_i len hlen
      rw [hlen, ok_bind]
      cases log.readRecord fs v offset len <;> rfl
  · rw [if_neg hlt, if_neg hlt]
    rfl

theorem offsetsFrom_eq (offset : Nat) :
    log.offsetsFrom fs v offset =
      if offset < v.length then do
        let len ← log.announcedLenAt fs v offset
        (log.offsetsFrom fs v (offset + len)).map (offset :: ·)
      else return [] := by
  rw [offsetsFrom]
  by_cases hlt : offset < v.length
  · rw [if_pos hlt, if_pos hlt]
    split <;> rename_i hlen <;> rw [hlen] <;> rfl
  · rw [if_neg hlt, if_neg hlt]
    rfl

theorem endsAs_tupleAt (runs : log.file.Runs fs bs) (offset : Nat) :
    EndsAs (log.checkedTupleAt fs offset) (log.tupleAt fs offset) := by
  refine runs.endsAs_use fun v opens => ?_
  have hplain : (log.announcedLenAt fs v offset >>= log.readRecord fs v offset) =
      log.announcedLenAt fs v offset >>= fun len =>
        log.readRecord fs v offset len >>= fun tuple => pure tuple := by
    simp only [bind_pure]
  change EndsAs _ (log.announcedLenAt fs v offset >>= log.readRecord fs v offset)
  rw [hplain]
  refine endsAs_decodeAt_bind opens runs.length_lt fun len tuple _ => ?_
  exact .ok tuple

theorem endsAs_keyAt (runs : log.file.Runs fs bs) (offset : Nat) :
    EndsAs (log.checkedKeyAt fs offset) (log.keyAt fs offset) := by
  have hlimit : Word.limit 8 = 2 * View.signedLimit := rfl
  have small := runs.length_lt
  refine runs.endsAs_use fun v opens => ?_
  refine (GuardedFile.endsAs_read opens small offset _).bind fun header hheader => ?_
  have hlength : header.length = 26 := (GuardedFile.length_of_read opens small hheader).1
  rw [range_zero (by omega), Checked.lift_bind]
  dsimp only
  by_cases hneg : Word.signed 2 (Word.ofBig (header.take 2)) < 0
  · rw [if_pos hneg, if_pos hneg]
    exact .refuse _ _
  · have hword := Word.ofBig_lt (header.take 2)
    have hle := Word.signed_le 2 (Word.ofBig (header.take 2))
    have hlimit2 : Word.limit (header.take 2).length = 65536 := by
      rw [List.length_take, hlength]
      rfl
    have hlimit8 : Word.limit 8 = 18446744073709551616 := rfl
    rw [if_neg hneg, if_neg hneg, add_eq (by rw [Record.headerLen]; omega), Checked.lift_bind]
    refine (GuardedFile.endsAs_read opens small offset _).bind fun record hrecord => ?_
    have hinside := GuardedFile.length_of_read opens small hrecord
    refine .adapt ?_ (isFormat_faultAt offset)
    rw [Record.checkedPeekKey_eq (by omega), Checked.map_of]

/-- Each turn goes on from an offset that lies further behind. -/
theorem endsAs_scanFrom (opens : v.Opens fs bs) (small : bs.length < View.signedLimit)
    (key : String) (offset : Nat) :
    EndsAs (log.checkedScanFrom fs v key offset) (log.scanFrom fs v key offset) := by
  induction offset using record_induction fs log v with
  | turn offset ih =>
    rw [checkedScanFrom, scanFrom_eq]
    by_cases hlt : offset < v.length
    · rw [if_pos hlt, if_pos hlt]
      refine endsAs_decodeAt_bind opens small fun len tuple hlen => ?_
      cases hcompare : Text.compare tuple.key key with
      | eq =>
        simp only [hcompare]
        exact .ok _
      | gt =>
        simp only [hcompare]
        exact .ok _
      | lt =>
        simp only [hcompare]
        exact ih len hlt hlen
    · rw [if_neg hlt, if_neg hlt]
      exact .ok _

theorem endsAs_offsetsFrom (opens : v.Opens fs bs) (small : bs.length < View.signedLimit)
    (offset : Nat) :
    EndsAs (log.checkedOffsetsFrom fs v offset) (log.offsetsFrom fs v offset) := by
  have hlimit4 : Word.limit 4 = 4294967296 := rfl
  have hlimit8 : Word.limit 8 = 18446744073709551616 := rfl
  have hsigned : View.signedLimit = 9223372036854775808 := rfl
  have hlength := opens.shows.length_eq
  induction offset using record_induction fs log v with
  | turn offset ih =>
    rw [checkedOffsetsFrom, offsetsFrom_eq]
    by_cases hlt : offset < v.length
    · rw [if_pos hlt, if_pos hlt]
      refine (endsAs_announcedLenAt opens small offset).bind fun len hlen => ?_
      have hlen4 := announcedLenAt_lt hlen
      rw [add_eq (by omega), Checked.lift_bind]
      exact (ih len hlt hlen).map (offset :: ·)
    · rw [if_neg hlt, if_neg hlt]
      exact .ok _

theorem endsAs_scan (runs : log.file.Runs fs bs) (key : String) :
    EndsAs (log.checkedScan fs key) (log.scan fs key) :=
  (runs.endsAs_use fun _ opens => endsAs_scanFrom opens runs.length_lt key _).bind
    fun found _ => .ok found.join

theorem endsAs_offsets (runs : log.file.Runs fs bs) :
    EndsAs (log.checkedOffsets fs) (log.offsets fs) :=
  (runs.endsAs_use fun _ opens => endsAs_offsetsFrom opens runs.length_lt _).bind
    fun found _ => .ok (found.getD [])

end Log

end SpatialSegment
