import SpatialSegment.Proofs.Filter
import SpatialSegment.Proofs.Segment.Damaged
import SpatialSegment.Proofs.Segment.Sharing
import SpatialSegment.Segment.Calls

/-!
# A segment that has ended has nothing to read

A segment keeps its spatial index, its gate, its cache and its summary in memory when its files are
closed. Every read goes to a closed file all the same, and before any check of a file that can fail:
a closed key index has no records, and a closed log gives none. So nothing is read after a shutdown
and after a deletion that has run, also by an iteration that was begun before.
-/

namespace SpatialSegment

namespace GuardedFile

variable {fs : FileSystem} {f f' : GuardedFile}

theorem use_of_closed (closed : f.view = none) {α : Type} (answer : View → Result α) :
    f.use answer = .ok none := by
  rw [use_eq, closed]
  split <;> rfl

theorem bodyLen_of_closed (closed : f.view = none) : f.bodyLen = 0 := by
  rw [bodyLen, openLen, closed]
  rfl

/-- The file runs or is closed: there is no service that has stopped and left its view open. -/
def Settled (f : GuardedFile) : Prop :=
  f.service.status = .running ∨ f.view = none

theorem Settled.view_shutdown (settled : f.Settled) : f.shutdown.view = none := by
  rw [shutdown, Service.isRunning]
  rcases settled with hrunning | hclosed
  · rw [if_pos (beq_iff_eq.mpr hrunning)]
    rfl
  · split
    · rfl
    · exact hclosed

theorem length_of_open {p : Path} {mode : ReadMode} {v : View}
    (h : View.open? fs p mode = .ok v) : v.length = fs.lengthAt p := by
  obtain ⟨place, hfind, h⟩ := bind_eq_ok.mp h
  rw [FileSystem.lengthAt, hfind]
  cases place with
  | directory => cases mode <;> cases h
  | file id => cases mode <;> cases h <;> rfl

theorem open_of_openChecked {v : View} (h : f.openChecked fs = .ok v) :
    View.open? fs f.path f.mode = .ok v := by
  unfold openChecked at h
  cases hopen : View.open? fs f.path f.mode with
  | error cause =>
    simp only [hopen] at h
    cases h
  | ok v' =>
    simp only [hopen] at h
    obtain ⟨-, h⟩ := of_check h
    cases hslice : v'.slice fs 0 FileFormat.bodyStart with
    | error cause =>
      rw [hslice] at h
      cases h
    | ok magic =>
      rw [hslice] at h
      obtain ⟨-, h⟩ := of_check h
      cases hrecord : f.format.recordLen with
      | none =>
        rw [hrecord] at h
        cases h
        rfl
      | some recordLen =>
        rw [hrecord] at h
        obtain ⟨-, h⟩ := of_check h
        cases h
        rfl

/-- A file that starts runs, with a view of the length that the file has then. -/
theorem of_init_eq_ok (h : f.init fs = (.ok (), f')) :
    f'.service.status = .running ∧ f'.bodyLen = fs.lengthAt f.path - FileFormat.bodyStart := by
  unfold init at h
  cases htransition : f.service.transition? .stopped .starting with
  | none =>
    simp only [htransition] at h
    cases h
  | some service =>
    cases hopen : f.openChecked fs with
    | error cause =>
      simp only [htransition, hopen] at h
      cases h
    | ok v =>
      simp only [htransition, hopen] at h
      cases h
      have hlength := length_of_open (open_of_openChecked hopen)
      exact ⟨rfl, congrArg (· - FileFormat.bodyStart) hlength⟩

end GuardedFile

namespace KeyIndex

variable {fs : FileSystem} {x : KeyIndex}

/-- Index and log are closed. -/
structure Closed (x : KeyIndex) : Prop where
  file : x.file.view = none
  log : x.log.file.view = none

namespace Closed

variable (closed : x.Closed)

include closed

theorem length_eq : x.length = 0 := by
  rw [length, GuardedFile.bodyLen_of_closed closed.file, Nat.zero_div]

theorem log_tupleAt (offset : Nat) : x.log.tupleAt fs offset = .ok none :=
  GuardedFile.use_of_closed closed.log _

theorem positions_eq (key : String) : x.positions fs key = pure [] := by
  rw [positions, closed.length_eq, KeySearch.positions, if_pos rfl]
  rfl

/-- There is no tuple at an ordinal whose place in the file can be told. -/
theorem tupleAt_eq {ordinal : Nat}
    (h : ordinal * recordLen + FileFormat.bodyStart < Word.limit 8) :
    x.tupleAt fs ordinal = .ok none := by
  rw [tupleAt, offsetAt, if_neg (Nat.not_le.mpr h), GuardedFile.use_of_closed closed.file]
  rfl

/-- An iteration has no further item, also if it was begun before. -/
theorem step_eq {c : Cursor}
    (small : c.next < c.stop → c.next * recordLen + FileFormat.bodyStart < Word.limit 8) :
    (x.step fs c).1 = none := by
  rw [step]
  by_cases hlt : c.next < c.stop
  · rw [if_pos hlt, closed.tupleAt_eq (small hlt)]
  · rw [if_neg hlt]

theorem drain_cursor : x.drain fs x.cursor = [] := by
  rw [drain, cursor, closed.length_eq, if_neg (Nat.lt_irrefl 0)]

end Closed

end KeyIndex

namespace Gate

/-- A gate without a filter, or one from the bytes of a filter that has been built. -/
inductive Made : Gate → Prop
  | absent : Made Gate.absent
  | built {placement : Filter.Placement} {sizing : Filter.Sizing} {seed : Bytes}
    {keys : List String} {expected : Nat} {rate : Float} {f : Filter} {gate : Gate}
    (full : seed.length = 32)
    (h : Filter.buildWith? placement sizing seed keys expected rate = some f)
    (loaded : ofBytes f.toBytes = .ok gate) : Made gate

/-- Such a gate lets a key pass or stops it. -/
theorem Made.exists_passes {g : Gate} (made : g.Made) (key : String) :
    ∃ passes, g.passes? key = some passes := by
  cases made with
  | absent => exact ⟨true, rfl⟩
  | built full h loaded =>
    obtain ⟨storable, hsize, -⟩ := Filter.of_buildWith? full h
    cases (ofBytes_of_storable storable).symm.trans loaded
    exact ⟨_, Filter.containsWith?_eq hsize key⟩

end Gate

namespace Segment

/-! ## Reads of a segment that has ended -/

/-- The files of the segment are closed. -/
def Ended (s : Segment) : Prop := s.index.index.Closed

/-- What a call makes of a segment: the gate and the summary stay, and as long as the files are not
closed, so do they, and no deletion is taken on. -/
structure Follows (s s' : Segment) : Prop where
  gate : s'.gate = s.gate
  summary : s'.summary = s.summary
  files : s'.Ended ∨ (s'.index.index = s.index.index ∧ s'.usage.deleted = s.usage.deleted)

theorem Ended.of_follows {s s' : Segment} (ended : s.Ended) (h : Follows s s') : s'.Ended := by
  rcases h.files with hended | ⟨hindex, -⟩
  · exact hended
  · rw [Ended, hindex]
    exact ended

namespace Follows

variable {s s' s'' : Segment}

theorem refl (s : Segment) : Follows s s :=
  ⟨rfl, rfl, Or.inr ⟨rfl, rfl⟩⟩

theorem trans (h : Follows s s') (h' : Follows s' s'') : Follows s s'' := by
  refine ⟨h'.gate.trans h.gate, h'.summary.trans h.summary, ?_⟩
  rcases h'.files with hended | ⟨hindex, hdeleted⟩
  · exact Or.inl hended
  · rcases h.files with hended | ⟨hindex', hdeleted'⟩
    · exact Or.inl (hended.of_follows h')
    · exact Or.inr ⟨hindex.trans hindex', hdeleted.trans hdeleted'⟩

theorem deleted_or_ended (h : Follows s s') (hkept : s.usage.deleted = false)
    (hdeleted : s'.usage.deleted = true) : s'.Ended := by
  rcases h.files with hended | ⟨-, hsame⟩
  · exact hended
  · rw [hkept, hdeleted] at hsame
    cases hsame

end Follows

/-- Each of the two files runs or is closed. -/
structure Settled (s : Segment) : Prop where
  index : s.index.index.file.Settled
  log : s.index.index.log.file.Settled

theorem Follows.settled {s s' : Segment} (h : Follows s s') (settled : s.Settled) :
    s'.Settled := by
  rcases h.files with hended | ⟨hindex, -⟩
  · exact ⟨Or.inr hended.file, Or.inr hended.log⟩
  · constructor
    · rw [hindex]
      exact settled.index
    · rw [hindex]
      exact settled.log

section Reads

variable {fs : FileSystem} {start : Segment}

theorem preserves_count (change : ReadCounts → ReadCounts) :
    Preserves (Follows start) (count change) :=
  fun _ h => ⟨h.gate, h.summary, h.files⟩

theorem preserves_lookup {α : Type} (steps : Lookup α) : Preserves (Follows start) (lookup steps) :=
  fun _ h => ⟨h.gate, h.summary, h.files⟩

theorem preserves_ofResult {α : Type} (result : Result α) :
    Preserves (Follows start) (ofResult result) :=
  fun _ h => h

theorem preserves_readTuples (offsets : List Nat) :
    Preserves (Follows start) (readTuples fs offsets) := by
  induction offsets with
  | nil => exact Preserves.pure _
  | cons offset offsets ih =>
    refine Preserves.get fun s => (preserves_ofResult _).bind fun found => ?_
    cases found with
    | none => exact ih
    | some t => exact (preserves_count _).bind fun _ => ih.bind fun _ => Preserves.pure _

theorem preserves_tuplesOf (key : String) : Preserves (Follows start) (tuplesOf fs key) := by
  refine (preserves_count _).bind fun _ => Preserves.get fun s => ?_
  cases s.gate.passes? key with
  | none => exact fun _ h => h
  | some passes =>
    cases passes with
    | false => exact (preserves_count _).bind fun _ => Preserves.pure _
    | true => exact Preserves.get fun _ => (preserves_lookup _).bind fun _ => preserves_readTuples _

theorem preserves_tuplesIn (region : Box) : Preserves (Follows start) (tuplesIn fs region) :=
  (preserves_count _).bind fun _ => Preserves.get fun _ => preserves_readTuples _

theorem preserves_tupleAt (ordinal : Nat) : Preserves (Follows start) (tupleAt fs ordinal) := by
  refine Preserves.get fun s => ?_
  by_cases hbehind : s.index.index.length ≤ ordinal
  · simp only [if_pos hbehind]
    exact Preserves.pure _
  · simp only [if_neg hbehind]
    refine (preserves_ofResult _).bind fun found => ?_
    cases found with
    | none => exact Preserves.pure _
    | some t => exact (preserves_count _).bind fun _ => Preserves.pure _

end Reads

/-! ### What they answer -/

section

variable {fs : FileSystem} {gate : Gate}

/-- The files are closed and the gate is the one that is given. -/
structure EndedWith (gate : Gate) (s : Segment) : Prop where
  ended : s.Ended
  gate : s.gate = gate

theorem answers_count_ended (change : ReadCounts → ReadCounts) :
    Answers (EndedWith gate) (count change) (.ok ()) :=
  fun _ h => ⟨rfl, h.ended, h.gate⟩

theorem answers_readTuples_ended (offsets : List Nat) :
    Answers (EndedWith gate) (readTuples fs offsets) (.ok []) := by
  induction offsets with
  | nil => exact Answers.pure _
  | cons offset offsets ih =>
    refine Answers.get fun s h => ?_
    have hnone : s.index.log.tupleAt fs offset = .ok none := h.ended.log_tupleAt offset
    rw [hnone]
    exact (answers_ofResult (.ok none)).ok_bind ih

theorem answers_tuplesOf_ended {key : String} {passes : Bool}
    (h : gate.passes? key = some passes) :
    Answers (EndedWith gate) (tuplesOf fs key) (.ok []) := by
  refine (answers_count_ended _).ok_bind (Answers.get fun s hs => ?_)
  rw [hs.gate, h]
  cases passes with
  | false => exact (answers_count_ended _).ok_bind (Answers.pure _)
  | true =>
    refine Answers.get fun s hs => ?_
    rw [hs.ended.positions_eq]
    have hlookup : Answers (EndedWith gate) (lookup (pure [])) (.ok ([] : List Nat)) :=
      fun _ h => ⟨rfl, h.ended, h.gate⟩
    exact hlookup.ok_bind (answers_readTuples_ended [])

theorem answers_tuplesIn_ended (region : Box) :
    Answers (EndedWith gate) (tuplesIn fs region) (.ok []) :=
  (answers_count_ended _).ok_bind (Answers.get fun _ _ => answers_readTuples_ended _)

theorem answers_tupleAt_ended (ordinal : Nat) :
    Answers (EndedWith gate) (tupleAt fs ordinal) (.ok none) := by
  refine Answers.get fun s hs => ?_
  have hlength : s.index.index.length ≤ ordinal := by
    rw [hs.ended.length_eq]
    exact Nat.zero_le ordinal
  simp only [if_pos hlength]
  exact Answers.pure _

end

/-! ## Calls -/

theorem ended_shutdown {s : Segment} (settled : s.Settled) : s.shutdown.Ended :=
  ⟨settled.index.view_shutdown, settled.log.view_shutdown⟩

theorem follows_shutdown {s : Segment} (settled : s.Settled) : Follows s s.shutdown :=
  ⟨rfl, rfl, Or.inl (ended_shutdown settled)⟩

theorem follows_withUsage {s : Segment} {usage : Usage} (h : usage.deleted = s.usage.deleted) :
    Follows s { s with usage } :=
  ⟨rfl, rfl, Or.inr ⟨rfl, h⟩⟩

/-- A deletion that is taken on closes the files. -/
theorem follows_settleDeletion {s : Segment} (fs : FileSystem) (settled : s.Settled) :
    Follows s (s.settleDeletion fs).2 := by
  rw [settleDeletion]
  cases s.usage.claimDeletion? with
  | none => exact Follows.refl s
  | some usage =>
    have settled' : ({ s with usage } : Segment).Settled := ⟨settled.index, settled.log⟩
    exact ⟨rfl, rfl, Or.inl (ended_shutdown settled')⟩

theorem follows_settleWith {s : Segment} {usage : Usage} (fs : FileSystem) (settled : s.Settled)
    (h : usage.deleted = s.usage.deleted) :
    Follows s (({ s with usage } : Segment).settleDeletion fs).2 :=
  have follows : Follows s { s with usage } := follows_withUsage h
  follows.trans (follows_settleDeletion fs (follows.settled settled))

theorem follows_release {s : Segment} (fs : FileSystem) (settled : s.Settled) :
    Follows s (s.release fs).2 := by
  rw [release, Usage.leave?]
  split
  · exact Follows.refl s
  · rename_i usage husage
    split at husage
    · cases husage
    · cases husage
      exact follows_settleWith fs settled rfl

theorem follows_acquire {s s' : Segment} (h : s.acquire? = some s') : Follows s s' := by
  obtain ⟨usage, husage, rfl⟩ := Option.map_eq_some_iff.mp h
  rw [Usage.acquire?] at husage
  split at husage
  · cases husage
  · cases husage
    exact follows_withUsage rfl

namespace Session

theorem follows_call {s : Session} (settled : s.segment.Settled) (c : Call) :
    Follows s.segment (s.call c).2.segment := by
  cases c with
  | tuplesOf key => exact preserves_tuplesOf key s.segment (Follows.refl s.segment)
  | tuplesIn region => exact preserves_tuplesIn region s.segment (Follows.refl s.segment)
  | tupleAt ordinal => exact preserves_tupleAt ordinal s.segment (Follows.refl s.segment)
  | acquire =>
    rw [call]
    cases hacquire : s.segment.acquire? with
    | none => exact Follows.refl s.segment
    | some segment => exact follows_acquire hacquire
  | release => exact follows_release s.fs settled
  | requestDeletion => exact follows_settleWith s.fs settled rfl
  | shutdown => exact follows_shutdown settled
  | next iteration =>
    rw [call]
    cases s.iterations[iteration]? <;> exact Follows.refl s.segment
  | items => exact Follows.refl s.segment
  | iterate => exact Follows.refl s.segment
  | summary => exact Follows.refl s.segment
  | outside fs => exact Follows.refl s.segment

/-- What calls keep of a segment that has been opened: they follow it, and no iteration goes beyond
the records that it had. -/
structure From (opened : Segment) (s : Session) : Prop where
  follows : Follows opened s.segment
  stop_le : ∀ c ∈ s.iterations, c.stop ≤ opened.index.index.length

theorem From.length_le {opened : Segment} {s : Session} (h : From opened s) :
    s.segment.index.index.length ≤ opened.index.index.length := by
  rcases h.follows.files with hended | ⟨hindex, -⟩
  · rw [hended.length_eq]
    exact Nat.zero_le _
  · rw [hindex]

theorem stop_step {fs : FileSystem} (x : KeyIndex) (c : KeyIndex.Cursor) :
    (x.step fs c).2.stop = c.stop := by
  rw [KeyIndex.step]
  split
  · split <;> rfl
  · rfl

theorem From.call {opened : Segment} (settled : opened.Settled) (s : Session) (c : Call)
    (h : From opened s) : From opened (s.call c).2 := by
  refine ⟨h.follows.trans (follows_call (h.follows.settled settled) c), ?_⟩
  cases c with
  | iterate =>
    intro cursor hcursor
    rcases List.mem_append.mp hcursor with hold | hnew
    · exact h.stop_le cursor hold
    · cases List.mem_singleton.mp hnew
      exact h.length_le
  | next iteration =>
    rw [Session.call]
    cases hfound : s.iterations[iteration]? with
    | none => exact h.stop_le
    | some cursor =>
      intro cursor' hcursor
      rcases List.mem_or_eq_of_mem_set hcursor with hold | rfl
      · exact h.stop_le cursor' hold
      · rw [stop_step]
        exact h.stop_le cursor (List.mem_of_getElem? hfound)
  | acquire =>
    rw [Session.call]
    cases s.segment.acquire? <;> exact h.stop_le
  | tuplesOf key => exact h.stop_le
  | tuplesIn region => exact h.stop_le
  | tupleAt ordinal => exact h.stop_le
  | items => exact h.stop_le
  | summary => exact h.stop_le
  | release => exact h.stop_le
  | requestDeletion => exact h.stop_le
  | shutdown => exact h.stop_le
  | outside fs => exact h.stop_le

theorem from_start (fs : FileSystem) (opened : Segment) : From opened (start fs opened) := by
  refine ⟨Follows.refl opened, fun c hc => ?_⟩
  cases hc

/-- After a shutdown, and once a deletion has been taken on, the files are closed. -/
theorem ended_of_finished {fs : FileSystem} {opened : Segment} (settled : opened.Settled)
    (kept : opened.usage.deleted = false) {calls : List Call}
    (finished : .shutdown ∈ calls ∨
      (Calls.stateAfter call (start fs opened) calls).segment.usage.deleted = true) :
    (Calls.stateAfter call (start fs opened) calls).segment.Ended := by
  have hstart := from_start fs opened
  rcases finished with hmem | hdeleted
  · have hended := Calls.stateAfter_of_mem (J := fun s => From opened s ∧ s.segment.Ended)
      (From.call settled)
      (fun s h => ⟨h.call settled s .shutdown, ended_shutdown (h.follows.settled settled)⟩)
      (fun s c h => ⟨h.1.call settled s c,
        h.2.of_follows (follows_call (h.1.follows.settled settled) c)⟩)
      hstart hmem
    exact hended.2
  · exact (Calls.stateAfter_keeps (From.call settled) hstart calls).follows.deleted_or_ended kept
      hdeleted

end Session

/-! ## Segments that have been opened -/

section

variable {fs : FileSystem} {base : Path} {table : TableName} {number : UInt64} {config : Config}
  {opened : Segment}

/-- The files of a segment that has been opened run, the key index with the length that its file
had. -/
theorem files_of_open (h : open? fs base table number config = .ok opened) :
    opened.Settled ∧ opened.index.index.file.bodyLen =
      fs.lengthAt (SegmentPaths.ofNumber table base number).keyIndex - FileFormat.bodyStart := by
  obtain ⟨logFile, indexFile, hlog, hindex, hsame⟩ := index_of_open h
  obtain ⟨hlogRuns, -⟩ := GuardedFile.of_init_eq_ok hlog
  obtain ⟨hindexRuns, hlength⟩ := GuardedFile.of_init_eq_ok hindex
  refine ⟨⟨?_, ?_⟩, ?_⟩
  · rw [hsame]
    exact Or.inl hindexRuns
  · rw [hsame]
    exact Or.inl hlogRuns
  · rw [hsame]
    exact hlength

end

/-- However a segment has been used, after a shutdown and after a deletion that has run every read
answers that there is nothing, a further step of an iteration as well, and the summary is the one
that was opened. -/
theorem nothing_read_after_end (fs : FileSystem) (base : Path) (table : TableName)
    (number : UInt64) (config : Config) (opened : Segment)
    (hopen : open? fs base table number config = .ok opened) (made : opened.gate.Made)
    (small : fs.lengthAt (SegmentPaths.ofNumber table base number).keyIndex < Word.limit 8)
    (calls : List Session.Call)
    (finished : .shutdown ∈ calls ∨ (Calls.stateAfter Session.call (Session.start fs opened)
      calls).segment.usage.deleted = true) :
    let now := Calls.stateAfter Session.call (Session.start fs opened) calls
    (∀ key, (now.call (.tuplesOf key)).1 = .tuples (.ok [])) ∧
      (∀ region, (now.call (.tuplesIn region)).1 = .tuples (.ok [])) ∧
      (∀ ordinal, (now.call (.tupleAt ordinal)).1 = .tuple (.ok none)) ∧
      (now.call .items).1 = .items [] ∧
      (∀ iteration, (now.call (.next iteration)).1 = .item none) ∧
      (now.call .summary).1 = .summary opened.summary := by
  intro now
  obtain ⟨settled, hlength⟩ := files_of_open hopen
  have kept : opened.usage.deleted = false := by
    rw [usage_of_open hopen]
    rfl
  have ended : now.segment.Ended := Session.ended_of_finished settled kept finished
  have hfrom : Session.From opened now :=
    Calls.stateAfter_keeps (Session.From.call settled) (Session.from_start fs opened) calls
  have hended : EndedWith opened.gate now.segment := ⟨ended, hfrom.follows.gate⟩
  refine ⟨fun key => ?_, fun region => ?_, fun ordinal => ?_, ?_, fun iteration => ?_, ?_⟩
  · obtain ⟨passes, hpasses⟩ := made.exists_passes key
    exact congrArg Session.Answer.tuples (answers_tuplesOf_ended hpasses _ hended).1
  · exact congrArg Session.Answer.tuples (answers_tuplesIn_ended region _ hended).1
  · exact congrArg Session.Answer.tuple (answers_tupleAt_ended ordinal _ hended).1
  · exact congrArg Session.Answer.items ended.drain_cursor
  · rw [Session.call]
    cases hcursor : now.iterations[iteration]? with
    | none => rfl
    | some cursor =>
      have hstop := hfrom.stop_le cursor (List.mem_of_getElem? hcursor)
      refine congrArg Session.Answer.item (ended.step_eq fun hnext => ?_)
      rw [KeyIndex.length, hlength] at hstop
      simp only [KeyIndex.recordLen, FileFormat.bodyStart] at hstop ⊢
      omega
  · exact congrArg Session.Answer.summary hfrom.follows.summary

/-- Two tuples are written and opened, an iteration takes the first of them, and the segment is shut
down. -/
theorem nothing_read_after_end_two :
    ∃ fs opened, open? fs ⟨"db"⟩ ⟨"g", "t", none, by decide, by decide⟩ 1
        ⟨2, .buffered, false, 0.01, 2⟩ = .ok opened ∧
      let shut := Calls.stateAfter Session.call (Session.start fs opened)
        [.iterate, .next 0, .tuplesOf "a", .shutdown, .outside FileSystem.empty]
      (shut.call (.tuplesOf "a")).1 = .tuples (.ok []) ∧ (shut.call (.next 0)).1 = .item none ∧
        (shut.call .summary).1 = .summary opened.summary := by
  obtain ⟨fs, hwrite⟩ := exists_write_two 0 .buffered 0.01 (List.replicate 32 0)
  obtain ⟨-, written⟩ :=
    written_of_write rfl (fun p _ => FileSystem.vacant_empty p.location) hwrite
  have capacity : Config.cacheCapacity ⟨2, .buffered, false, 0.01, 2⟩ ≤ RecentKeys.maxCapacity := by
    decide
  obtain ⟨opened, hopen, -⟩ := written.exists_open capacity
  have made : opened.gate.Made := by
    rw [gate_of_open hopen]
    exact Gate.Made.absent
  have small := written.index.lengthAt
  rw [List.length_append, length_flatMap_const (Word.length_big 4), length_recordOffsets,
    sorted, List.length_mergeSort] at small
  obtain ⟨htuples, -, -, -, hnext, hsummary⟩ := nothing_read_after_end fs _ _ _ _ opened hopen made
    (small ▸ by decide) [.iterate, .next 0, .tuplesOf "a", .shutdown, .outside FileSystem.empty]
    (Or.inl (by simp))
  exact ⟨fs, opened, hopen, htuples "a", hnext 0, hsummary⟩

end Segment

end SpatialSegment
