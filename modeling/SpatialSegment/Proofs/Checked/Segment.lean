import SpatialSegment.Proofs.Checked.Filter
import SpatialSegment.Proofs.Checked.KeyIndex
import SpatialSegment.Proofs.Segment.Loads

/-!
# Reads of a segment on a machine

The search for a key is written for the machine as well. While log and key index run and do not
change it ends as the plain one does, after any reads before it, and fails with an error of the
format if it does. The gate is the one place where it can crash.
-/

namespace SpatialSegment

open Machine

namespace Segment

/-- Steps of a machine that count what they do. -/
abbrev CheckedReading := ExceptT Failure (StateT Segment Machine)

def checkedCount (change : ReadCounts → ReadCounts) : CheckedReading Unit :=
  modify fun s => { s with counts := change s.counts }

def ofChecked {α : Type} (steps : Checked SegmentError α) : CheckedReading α :=
  ExceptT.mk fun s => do
    let result ← steps.run
    return (result.mapError .error, s)

/-- An answer through the cache of the index. -/
def checkedLookup {α : Type} (answer : CheckedLookup α) : CheckedReading α :=
  ExceptT.mk fun s => do
    let (result, cache) ← answer.run.run s.index.cache
    return (result.mapError .error, { s with index := { s.index with cache } })

/-- The tuples at offsets of the log, as far as it is open. -/
def checkedReadTuples (fs : FileSystem) : List Nat → CheckedReading (List Tuple)
  | [] => return []
  | offset :: rest => do
    match ← ofChecked ((← get).index.log.checkedTupleAt fs offset) with
    | none => checkedReadTuples fs rest
    | some t =>
      checkedCount fun c =>
        { c with tuplesRead := c.tuplesRead + 1, bytesRead := c.bytesRead + Record.storedLen t }
      return t :: (← checkedReadTuples fs rest)

/-- All tuples with the key. -/
def checkedTuplesOf (fs : FileSystem) (key : String) : CheckedReading (List Tuple) := do
  checkedCount fun c => { c with keyLookups := c.keyLookups + 1 }
  match ← (liftM ((← get).gate.checkedPasses key) : CheckedReading Bool) with
  | false =>
    checkedCount fun c => { c with gateStops := c.gateStops + 1 }
    return []
  | true =>
    let positions ← checkedLookup ((← get).index.index.checkedPositions fs key)
    checkedReadTuples fs positions

theorem lift_bind {α β : Type} (a : α) (next : α → CheckedReading β) :
    ((liftM (pure a : Machine α) : CheckedReading α) >>= next) = next a := rfl

theorem run_lift_bind {α β : Type} (crash : Crash) (next : α → CheckedReading β) (s : Segment) :
    ((liftM (throw crash : Machine α) : CheckedReading α) >>= next).run.run s = throw crash := rfl

/-! ## Ends of reads -/

/-- Reads have left the index and the gate as they were opened. -/
structure AsOpened (opened s : Segment) : Prop where
  index : s.index.index = opened.index.index
  gate : s.gate = opened.gate

/-- From every segment that is as it was opened the checked steps end as the plain ones do, and
leave such a segment. A failure is an error of the format. -/
structure ReadEndsAs {α : Type} (opened : Segment) (steps : CheckedReading α) (plain : Reading α) :
    Prop where
  run_eq : ∀ s, AsOpened opened s → steps.run.run s = pure (plain.run.run s)
  keeps : Preserves (AsOpened opened) plain
  format : ∀ s, AsOpened opened s → ∀ failure, (plain.run.run s).1 = .error failure →
    ∃ cause, failure = .error cause ∧ cause.isFormat = true

namespace ReadEndsAs

variable {α β : Type} {opened : Segment} {steps : CheckedReading α} {plain : Reading α}

theorem ok (a : α) : ReadEndsAs opened (pure a) (pure a) := by
  refine ⟨fun s _ => rfl, Preserves.pure a, ?_⟩
  intro s _ failure h
  cases h

/-- The steps after a step go on from its value. -/
theorem bind {next : α → CheckedReading β} {further : α → Reading β}
    (ends : ReadEndsAs opened steps plain) (rest : ∀ a, ReadEndsAs opened (next a) (further a)) :
    ReadEndsAs opened (steps >>= next) (plain >>= further) := by
  have hrun : ∀ s, (steps >>= next).run.run s =
      steps.run.run s >>= fun p => (ExceptT.bindCont next p.1).run p.2 := fun s => rfl
  refine ⟨fun s hs => ?_, ends.keeps.bind fun a => (rest a).keeps, fun s hs => ?_⟩
  · rw [hrun, ends.run_eq s hs, pure_bind, run_bind]
    cases (plain.run.run s).1 with
    | error failure => rfl
    | ok a => exact (rest a).run_eq _ (ends.keeps s hs)
  · rw [run_bind]
    cases hresult : (plain.run.run s).1 with
    | error failure =>
      intro failure' h
      cases h
      exact ends.format s hs failure hresult
    | ok a => exact (rest a).format _ (ends.keeps s hs)

/-- Steps that look at the segment first. -/
theorem get {next : Segment → CheckedReading α} {further : Segment → Reading α}
    (h : ∀ s, AsOpened opened s → ReadEndsAs opened (next s) (further s)) :
    ReadEndsAs opened (MonadState.get >>= next) (MonadState.get >>= further) :=
  ⟨fun s hs => (h s hs).run_eq s hs, fun s hs => (h s hs).keeps s hs,
    fun s hs => (h s hs).format s hs⟩

theorem count (change : ReadCounts → ReadCounts) :
    ReadEndsAs opened (checkedCount change) (Segment.count change) := by
  refine ⟨fun s _ => rfl, fun s h => ⟨h.index, h.gate⟩, ?_⟩
  intro s _ failure h
  cases h

theorem format_mapError {result : Result α} (formatOnly : FormatOnly result) {failure : Failure}
    (h : result.mapError .error = .error failure) :
    ∃ cause, failure = .error cause ∧ cause.isFormat = true := by
  cases result with
  | error cause =>
    cases h
    exact ⟨cause, rfl, formatOnly cause rfl⟩
  | ok a => cases h

theorem of_endsAs {checked : Checked SegmentError α} {result : Result α}
    (ends : EndsAs checked result) : ReadEndsAs opened (ofChecked checked) (ofResult result) := by
  obtain ⟨rfl, hformat⟩ := ends
  exact ⟨fun s _ => rfl, fun s h => h, fun s _ failure h => format_mapError hformat h⟩

theorem lookup {checked : CheckedLookup α} {answer : Lookup α}
    (ends : LookupEndsAs checked answer) :
    ReadEndsAs opened (checkedLookup checked) (Segment.lookup answer) := by
  refine ⟨fun s _ => ?_, fun s h => ⟨h.index, h.gate⟩, fun s _ failure h => ?_⟩
  · rw [run_lookup]
    change (checked.run.run s.index.cache >>= _) = _
    rw [ends.run_eq]
    rfl
  · exact format_mapError (ends.formatOnly s.index.cache) h

end ReadEndsAs

section

variable {fs : FileSystem} {opened s : Segment} {logBytes indexBytes : Bytes}

theorem endsAs_readTuples (log : opened.index.log.file.Runs fs logBytes) (offsets : List Nat) :
    ReadEndsAs opened (checkedReadTuples fs offsets) (readTuples fs offsets) := by
  induction offsets with
  | nil => exact .ok _
  | cons offset offsets ih =>
    refine .get fun s hs => ?_
    have hlog : s.index.log = opened.index.log := congrArg KeyIndex.log hs.index
    rw [hlog]
    refine (ReadEndsAs.of_endsAs (Log.endsAs_tupleAt log offset)).bind fun found => ?_
    cases found with
    | none => exact ih
    | some t => exact (ReadEndsAs.count _).bind fun _ => ih.bind fun rest => .ok _

/-- A search for a key that the gate decides on ends as the plain one does. -/
theorem endsAs_tuplesOf (log : opened.index.log.file.Runs fs logBytes)
    (index : opened.index.shared.file.Runs fs indexBytes) (probing : opened.gate.Probing)
    {key : String} {passes : Bool} (hpasses : opened.gate.passes? key = some passes) :
    ReadEndsAs opened (checkedTuplesOf fs key) (tuplesOf fs key) := by
  have hasked := Gate.checkedPasses_eq probing key
  rw [hpasses] at hasked
  refine (ReadEndsAs.count _).bind fun _ => .get fun s hs => ?_
  rw [hs.gate, hasked, lift_bind, hpasses]
  cases passes with
  | false => exact (ReadEndsAs.count _).bind fun _ => .ok _
  | true =>
    refine ReadEndsAs.get fun s hs => ?_
    have hlookup := KeyIndex.endsAs_positions (x := opened.index.index) log index key
    rw [hs.index]
    exact (ReadEndsAs.lookup hlookup).bind fun positions => endsAs_readTuples log positions

/-- A search for a key that the gate has no answer for crashes. -/
theorem crash_of_tuplesOf (probing : s.gate.Probing) {key : String}
    (hpasses : s.gate.passes? key = none) :
    (checkedTuplesOf fs key).run.run s = throw .panic ∧
      ((tuplesOf fs key).run.run s).1 = .error .aborted := by
  have hasked := Gate.checkedPasses_eq probing key
  rw [hpasses] at hasked
  constructor
  · change ((liftM (s.gate.checkedPasses key) : CheckedReading Bool) >>= _).run.run _ = _
    rw [hasked, run_lift_bind]
  · have haborts : Answers (fun t : Segment => t.gate = s.gate) (tuplesOf fs key)
        (.error .aborted) := by
      have hcount : Answers (fun t : Segment => t.gate = s.gate)
          (Segment.count fun c => { c with keyLookups := c.keyLookups + 1 }) (.ok ()) :=
        fun t ht => ⟨rfl, ht⟩
      refine hcount.ok_bind (Answers.get fun t ht => ?_)
      rw [ht, hpasses]
      exact fun t ht => ⟨rfl, ht⟩
    exact (haborts s rfl).1

end

end Segment

end SpatialSegment
