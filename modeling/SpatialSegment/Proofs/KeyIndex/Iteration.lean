import SpatialSegment.Proofs.KeyIndex.Transparent

/-!
# Iteration while the files are stopped

An iteration visits the ordinals from 0 on, up to the number of records that the index had when it
began. Between its steps anything may be called on the index and the log. What it gives is a tuple
for each ordinal in turn, then at most one error, and nothing from then on. As long as no file is
started meanwhile, these are the tuples that the files held when it began.
-/

namespace SpatialSegment

namespace GuardedFile

/-- The second file does not run, or it is the first one with other users. -/
structure Fades (f g : GuardedFile) : Prop where
  path : g.path = f.path
  running : g.service.status = .running →
    f.service.status = .running ∧ g = { f with service := g.service }

variable {f g : GuardedFile} {s : SharedFile}

theorem Fades.refl (f : GuardedFile) : f.Fades f :=
  ⟨rfl, fun h => ⟨h, rfl⟩⟩

theorem fades_of_not_running (path : g.path = f.path) (h : g.service.status ≠ .running) :
    f.Fades g :=
  ⟨path, fun hrunning => absurd hrunning h⟩

/-- A change of the users alone. -/
theorem Fades.withService (fades : f.Fades g) {service : Service}
    (h : service.status = g.service.status) : f.Fades { g with service } := by
  refine ⟨fades.path, fun hrunning => ?_⟩
  obtain ⟨hrunning', hg⟩ := fades.running (h ▸ hrunning)
  refine ⟨hrunning', ?_⟩
  rw [hg]

theorem status_stop_of_running (h : f.service.status = .running) :
    f.stop.service.status = .stopping := by
  rw [stop, Service.transition?, if_pos h]

/-- A call that does not start the file. -/
theorem Fades.call (fades : f.Fades s.file) (fs : FileSystem) {c : SharedFile.Call}
    (h : c ≠ .init) : f.Fades (s.call fs c).2.file := by
  cases c with
  | init => exact absurd rfl h
  | acquire =>
    rw [SharedFile.call, SharedFile.acquire?, acquire?, Service.acquire?]
    by_cases hrunning : s.file.service.status = .running
    · rw [if_pos hrunning]
      exact fades.withService rfl
    · rw [if_neg hrunning]
      exact fades
  | release => exact fades.withService rfl
  | shutdown =>
    rw [SharedFile.call, SharedFile.beginShutdown]
    by_cases hrunning : s.file.service.isRunning = true
    · rw [if_pos hrunning]
      have hstopping := status_stop_of_running (eq_of_beq hrunning)
      refine fades_of_not_running ?_ fun h => ?_
      · rw [stop, Service.transition?, if_pos (eq_of_beq hrunning)]
        exact fades.path
      · cases hstopping.symm.trans h
    · rw [if_neg hrunning]
      exact fades
  | finish =>
    rw [SharedFile.call, SharedFile.finish]
    cases s.waiting with
    | none => exact fades
    | some waiting =>
      by_cases hused : s.file.service.isUsed = true
      · simp only [if_pos hused]
        exact fades
      · simp only [if_neg hused]
        cases waiting <;> exact fades_of_not_running fades.path fun h => by cases h
  | read offset len => exact fades
  | length => exact fades
  | service => exact fades

end GuardedFile

namespace Log

variable {fs : FileSystem} {log : Log}

theorem tupleAt_withService {service : Service} (h : service.status = log.file.service.status)
    (offset : Nat) :
    Log.tupleAt fs ⟨{ log.file with service }⟩ offset = log.tupleAt fs offset := by
  simp only [tupleAt, GuardedFile.use_withService h]
  rfl

/-- A log that has faded answers as before or not at all. -/
theorem tupleAt_of_fades {log' : Log} (fades : log.file.Fades log'.file) (offset : Nat) :
    log'.tupleAt fs offset = log.tupleAt fs offset ∨ log'.tupleAt fs offset = .ok none := by
  by_cases hrunning : log'.file.service.status = .running
  · obtain ⟨hrunning', hfile⟩ := fades.running hrunning
    obtain ⟨file⟩ := log'
    simp only at hfile hrunning
    rw [hfile, tupleAt_withService (hrunning.trans hrunning'.symm)]
    exact .inl rfl
  · right
    rw [tupleAt, GuardedFile.use_of_not_running hrunning]

end Log

namespace KeyIndex

variable {fs : FileSystem} {x y : KeyIndex} {c : Cursor}

theorem offsetAt_of_fades (fs : FileSystem) (fades : x.file.Fades y.file) (ordinal : Nat) :
    y.offsetAt fs ordinal = x.offsetAt fs ordinal ∨ y.offsetAt fs ordinal = .ok none := by
  by_cases hrunning : y.file.service.status = .running
  · obtain ⟨hrunning', hfile⟩ := fades.running hrunning
    left
    rw [← offsetAt_withService (x := x) (hrunning.trans hrunning'.symm), ← hfile]
    rfl
  · rw [offsetAt, offsetAt, fades.path]
    by_cases hlimit : Word.limit 8 ≤ ordinal * recordLen + FileFormat.bodyStart
    · rw [if_pos hlimit, if_pos hlimit]
      exact .inl rfl
    · rw [if_neg hlimit, GuardedFile.use_of_not_running hrunning]
      exact .inr rfl

/-- Where index and log have faded, an ordinal leads to the tuple it led to, or to none. -/
theorem tupleAt_of_fades (index : x.file.Fades y.file) (log : x.log.file.Fades y.log.file)
    (ordinal : Nat) :
    y.tupleAt fs ordinal = x.tupleAt fs ordinal ∨ y.tupleAt fs ordinal = .ok none := by
  rw [tupleAt, tupleAt]
  rcases offsetAt_of_fades fs index ordinal with hoffset | hoffset
  · rw [hoffset]
    rcases x.offsetAt fs ordinal with cause | _ | offset
    · exact .inl rfl
    · exact .inl rfl
    · exact Log.tupleAt_of_fades log offset
  · rw [hoffset]
    exact .inr rfl

/-- What a step comes to. -/
inductive Stepped (fs : FileSystem) (x : KeyIndex) (c : Cursor) :
    Option (Result Tuple) → Cursor → Prop
  | tuple {t : Tuple} (inside : c.next < c.stop) (found : x.tupleAt fs c.next = .ok (some t)) :
    Stepped fs x c (some (.ok t)) ⟨c.next + 1, c.stop⟩
  | error {cause : SegmentError} (inside : c.next < c.stop)
    (failed : x.tupleAt fs c.next = .error cause) :
    Stepped fs x c (some (.error cause)) ⟨c.stop, c.stop⟩
  | closed (inside : c.next < c.stop) (nothing : x.tupleAt fs c.next = .ok none) :
    Stepped fs x c none ⟨c.stop, c.stop⟩
  | ended (outside : c.stop ≤ c.next) : Stepped fs x c none c

theorem stepped (fs : FileSystem) (x : KeyIndex) (c : Cursor) :
    Stepped fs x c (x.step fs c).1 (x.step fs c).2 := by
  rw [step]
  by_cases inside : c.next < c.stop
  · rw [if_pos inside]
    cases hfound : x.tupleAt fs c.next with
    | error cause => exact .error inside hfound
    | ok found =>
      cases found with
      | none => exact .closed inside hfound
      | some t => exact .tuple inside hfound
  · rw [if_neg inside]
    exact .ended (Nat.le_of_not_lt inside)

theorem Stepped.le {item : Option (Result Tuple)} {c' : Cursor} (stepped : Stepped fs x c item c')
    (h : c.next ≤ c.stop) : c'.next ≤ c'.stop := by
  cases stepped with
  | tuple inside found => exact inside
  | error inside failed => exact Nat.le_refl _
  | closed inside nothing => exact Nat.le_refl _
  | ended outside => exact h

end KeyIndex

namespace Readers

open KeyIndex (Cursor Stepped)

/-- A step of an iteration after other calls, and what the readers and the iteration become. -/
def turn (fs : FileSystem) (s : Readers × Cursor) (calls : List Call) :
    Option (Result Tuple) × (Readers × Cursor) :=
  let r := Calls.stateAfter (call fs) s.1 calls
  let (item, cursor) := r.cachedIndex.index.step fs s.2
  (item, (r, cursor))

/-- The index as step `i` finds it. -/
def indexAt (fs : FileSystem) (s : Readers × Cursor) (turns : List (List Call)) (i : Nat) :
    KeyIndex :=
  (Calls.stateAfter (turn fs) s (turns.take (i + 1))).1.cachedIndex.index

/-- The items of an iteration from a cursor on: the tuples of successive ordinals, then an error or
none, then nothing. Nothing more comes when all ordinals have been visited, and when the index or
the log has no answer. -/
structure Visits (fs : FileSystem) (index : Nat → KeyIndex) (c : Cursor)
    (items : List (Option (Result Tuple))) (tuples : List Tuple) (error : Option SegmentError)
    (silent : Nat) : Prop where
  items_eq : items = tuples.map (fun t => some (.ok t)) ++
    error.toList.map (fun cause => some (.error cause)) ++ List.replicate silent none
  length_le : tuples.length + error.toList.length ≤ c.remaining
  found : ∀ i t, tuples[i]? = some t → (index i).tupleAt fs (c.next + i) = .ok (some t)
  failed : ∀ cause, error = some cause →
    (index tuples.length).tupleAt fs (c.next + tuples.length) = .error cause
  ended : 0 < silent → error = none → tuples.length = c.remaining ∨
    (index tuples.length).tupleAt fs (c.next + tuples.length) = .ok none

section

variable {fs : FileSystem} {s : Readers × Cursor} {r : Readers}

theorem stepped_turn (fs : FileSystem) (s : Readers × Cursor) (calls : List Call) :
    Stepped fs (turn fs s calls).2.1.cachedIndex.index s.2 (turn fs s calls).1
      (turn fs s calls).2.2 :=
  KeyIndex.stepped fs _ s.2

/-- Once all ordinals have been visited nothing comes any more. -/
theorem answers_of_over (outside : s.2.stop ≤ s.2.next) (turns : List (List Call)) :
    Calls.answers (turn fs) s turns = List.replicate turns.length none := by
  induction turns generalizing s with
  | nil => rfl
  | cons calls turns ih =>
    have hstep : KeyIndex.step fs (Calls.stateAfter (call fs) s.1 calls).cachedIndex.index s.2 =
        (none, s.2) := by
      rw [KeyIndex.step, if_neg (Nat.not_lt.mpr outside)]
    rw [Calls.answers, turn, hstep]
    exact congrArg (none :: ·) (ih outside)

variable {index : Nat → KeyIndex} {c : Cursor}

/-- An iteration that gives nothing. -/
theorem visits_nothing {count : Nat}
    (h : 0 < count → c.stop ≤ c.next ∨ (index 0).tupleAt fs c.next = .ok none) :
    Visits fs index c (List.replicate count none) [] none count := by
  refine ⟨rfl, Nat.zero_le _, ?_, ?_, ?_⟩
  · intro i t ht
    cases ht
  · intro cause hcause
    cases hcause
  · intro hpos _
    refine (h hpos).imp_left fun outside => ?_
    simp only [Cursor.remaining, List.length_nil]
    omega

/-- An iteration whose first item is an error. -/
theorem visits_error {cause : SegmentError} (inside : c.next < c.stop)
    (failed : (index 0).tupleAt fs c.next = .error cause) (count : Nat) :
    Visits fs index c (some (.error cause) :: List.replicate count none) [] (some cause) count := by
  refine ⟨rfl, ?_, ?_, ?_, ?_⟩
  · simp only [Cursor.remaining, Option.toList, List.length_cons, List.length_nil]
    omega
  · intro i t ht
    cases ht
  · rintro _ ⟨⟩
    exact failed
  · intro _ hnone
    cases hnone

/-- A tuple before the items that come from the next ordinal on. -/
theorem Visits.cons {items : List (Option (Result Tuple))} {tuples : List Tuple}
    {error : Option SegmentError} {silent : Nat} {t : Tuple}
    (visits : Visits fs (fun i => index (i + 1)) ⟨c.next + 1, c.stop⟩ items tuples error silent)
    (inside : c.next < c.stop) (found : (index 0).tupleAt fs c.next = .ok (some t)) :
    Visits fs index c (some (.ok t) :: items) (t :: tuples) error silent := by
  obtain ⟨hitems, hlength, hfound, hfailed, hended⟩ := visits
  have hshift (i : Nat) : c.next + (i + 1) = c.next + 1 + i := by omega
  simp only [Cursor.remaining] at hlength hended
  refine ⟨?_, ?_, ?_, ?_, ?_⟩
  · rw [hitems]
    rfl
  · simp only [Cursor.remaining, List.length_cons]
    omega
  · intro i t' ht'
    cases i with
    | zero =>
      cases ht'
      exact found
    | succ i =>
      rw [hshift]
      exact hfound i t' ht'
  · intro cause hcause
    rw [List.length_cons, hshift]
    exact hfailed cause hcause
  · intro hpos hnone
    rw [List.length_cons, hshift]
    refine (hended hpos hnone).imp_left fun h => ?_
    simp only [Cursor.remaining]
    omega

/-- What an iteration gives, whatever else is called between its steps. -/
theorem exists_visits (fs : FileSystem) (s : Readers × Cursor) (turns : List (List Call)) :
    ∃ tuples error silent, Visits fs (indexAt fs s turns) s.2
      (Calls.answers (turn fs) s turns) tuples error silent := by
  induction turns generalizing s with
  | nil => exact ⟨[], none, 0, visits_nothing fun hpos => absurd hpos (Nat.lt_irrefl 0)⟩
  | cons calls turns ih =>
    have hover (outside : (turn fs s calls).2.2.stop ≤ (turn fs s calls).2.2.next) :
        Calls.answers (turn fs) s (calls :: turns) =
          (turn fs s calls).1 :: List.replicate turns.length none := by
      rw [Calls.answers, answers_of_over outside]
    have hstep : Stepped fs (indexAt fs s (calls :: turns) 0) s.2 _ _ := stepped_turn fs s calls
    generalize hitem : (turn fs s calls).1 = item at hstep hover
    generalize hcursor : (turn fs s calls).2.2 = cursor at hstep hover
    cases hstep with
    | @tuple t inside found =>
      obtain ⟨tuples, error, silent, visits⟩ := ih (turn fs s calls).2
      rw [hcursor] at visits
      rw [Calls.answers, hitem]
      exact ⟨t :: tuples, error, silent, visits.cons inside found⟩
    | @error cause inside failed =>
      rw [hover (Nat.le_refl _)]
      exact ⟨[], some cause, turns.length, visits_error inside failed turns.length⟩
    | closed inside nothing =>
      rw [hover (Nat.le_refl _), ← List.replicate_succ]
      exact ⟨[], none, turns.length + 1, visits_nothing fun _ => .inr nothing⟩
    | ended outside =>
      rw [hover outside, ← List.replicate_succ]
      exact ⟨[], none, turns.length + 1, visits_nothing fun _ => .inl outside⟩

/-- The number of items is not greater than the number that may come. -/
theorem Visits.length_items_le {items : List (Option (Result Tuple))} {tuples : List Tuple}
    {error : Option SegmentError} {silent : Nat}
    (visits : Visits fs index c items tuples error silent) :
    (items.filter Option.isSome).length ≤ c.remaining := by
  have htuples : (tuples.map fun t => some (.ok t : Result Tuple)).filter Option.isSome =
      tuples.map fun t => some (.ok t) :=
    List.filter_eq_self.mpr fun item hitem => by
      obtain ⟨t, -, rfl⟩ := List.mem_map.mp hitem
      rfl
  have herror : (error.toList.map fun cause => some (.error cause : Result Tuple)).filter
      Option.isSome = error.toList.map fun cause => some (.error cause) :=
    List.filter_eq_self.mpr fun item hitem => by
      obtain ⟨cause, -, rfl⟩ := List.mem_map.mp hitem
      rfl
  have hsilent : (List.replicate silent (none : Option (Result Tuple))).filter Option.isSome = [] :=
    List.filter_eq_nil_iff.mpr fun item hitem => by
      rw [List.eq_of_mem_replicate hitem]
      exact Bool.false_ne_true
  rw [visits.items_eq, List.filter_append, List.filter_append, htuples, herror, hsilent,
    List.append_nil, List.length_append, List.length_map, List.length_map]
  exact visits.length_le

/-- The items after some steps are those of an iteration that goes on from there. -/
theorem drop_answers (fs : FileSystem) (s : Readers × Cursor) (turns : List (List Call)) (n : Nat) :
    (Calls.answers (turn fs) s turns).drop n =
      Calls.answers (turn fs) (Calls.stateAfter (turn fs) s (turns.take n)) (turns.drop n) := by
  induction turns generalizing s n with
  | nil => rw [Calls.answers, List.drop_nil, List.drop_nil, Calls.answers]
  | cons calls turns ih =>
    cases n with
    | zero => rfl
    | succ n => exact ih (turn fs s calls).2 n

/-- At any time the next ordinal is not behind the end, and no more items come than there are
ordinals between the two. -/
theorem length_items_le_remaining (fs : FileSystem) {s : Readers × Cursor}
    (h : s.2.next ≤ s.2.stop) (turns : List (List Call)) (n : Nat) :
    let c := (Calls.stateAfter (turn fs) s (turns.take n)).2
    c.next ≤ c.stop ∧
      (((Calls.answers (turn fs) s turns).drop n).filter Option.isSome).length ≤ c.remaining := by
  constructor
  · exact Calls.stateAfter_keeps (I := fun s => s.2.next ≤ s.2.stop)
      (fun s calls hs => (stepped_turn fs s calls).le hs) h (turns.take n)
  · obtain ⟨_, _, _, visits⟩ :=
      exists_visits fs (Calls.stateAfter (turn fs) s (turns.take n)) (turns.drop n)
    rw [drop_answers]
    exact visits.length_items_le

/-! ## Files that are not started meanwhile -/

/-- A call that starts the index or the log. -/
def Call.Starts : Call → Prop
  | .log .init => True
  | .indexFile .init => True
  | .index (.file .init) => True
  | _ => False

/-- Both files have faded. -/
structure Fades (r r' : Readers) : Prop where
  index : r.index.file.Fades r'.index.file
  log : r.log.file.Fades r'.log.file

theorem Fades.call {r' : Readers} (fades : Fades r r') {c : Call} (h : ¬c.Starts) :
    Fades r (r'.call fs c).2 := by
  cases c with
  | log c =>
    have hinit : c ≠ .init := fun hc => h (hc ▸ trivial)
    exact ⟨fades.index, fades.log.call fs hinit⟩
  | indexFile c =>
    have hinit : c ≠ .init := fun hc => h (hc ▸ trivial)
    exact ⟨fades.index.call fs hinit, fades.log⟩
  | index c =>
    refine ⟨?_, fades.log⟩
    cases c with
    | file c =>
      have hinit : c ≠ .init := fun hc => h (hc ▸ trivial)
      have hcall := fades.index.call fs hinit
      by_cases hshutdown : c = .shutdown
      · subst hshutdown
        exact hcall
      · rw [Readers.call, CachedIndex.call_file _ hshutdown]
        exact hcall
    | _ => exact fades.index
  | activate capacity =>
    rw [Readers.call]
    cases r'.cachedIndex.activate capacity <;> exact ⟨fades.index, fades.log⟩
  | _ => exact fades

theorem Fades.turns {s : Readers × Cursor} (fades : Fades r s.1) {turns : List (List Call)}
    (h : ∀ calls ∈ turns, ∀ c ∈ calls, ¬c.Starts) :
    Fades r (Calls.stateAfter (turn fs) s turns).1 := by
  have hcalls {r' : Readers} {calls : List Call} (fades : Fades r r')
      (h : ∀ c ∈ calls, ¬c.Starts) : Fades r (Calls.stateAfter (Readers.call fs) r' calls) := by
    induction calls generalizing r' with
    | nil => exact fades
    | cons c calls ih =>
      obtain ⟨hc, hrest⟩ := List.forall_mem_cons.mp h
      exact ih (fades.call hc) hrest
  induction turns generalizing s with
  | nil => exact fades
  | cons calls turns ih =>
    obtain ⟨hcalls', hrest⟩ := List.forall_mem_cons.mp h
    exact ih (hcalls fades hcalls') hrest

/-- If no file is started, a step finds or fails to read what it would have at the beginning. -/
theorem tupleAt_eq_of_not_started {s : Readers × Cursor} {turns : List (List Call)}
    (h : ∀ calls ∈ turns, ∀ c ∈ calls, ¬c.Starts) {i ordinal : Nat}
    {result : Result (Option Tuple)} (found : (indexAt fs s turns i).tupleAt fs ordinal = result)
    (answered : result ≠ .ok none) : s.1.cachedIndex.index.tupleAt fs ordinal = result := by
  have fades : Fades s.1 (Calls.stateAfter (turn fs) s (turns.take (i + 1))).1 :=
    Fades.turns ⟨.refl _, .refl _⟩ fun calls hcalls => h calls (List.mem_of_mem_take hcalls)
  have faded : (indexAt fs s turns i).tupleAt fs ordinal =
      s.1.cachedIndex.index.tupleAt fs ordinal ∨
        (indexAt fs s turns i).tupleAt fs ordinal = .ok none :=
    KeyIndex.tupleAt_of_fades fades.index fades.log ordinal
  rcases faded with hsame | hnone
  · exact hsame.symm.trans found
  · exact absurd (found.symm.trans hnone) answered

end

/-- An iteration of an index is called upon again and again, and anything may be called on the
readers before each step. Its items are the tuples of the ordinals from 0 on, each as the step finds
the files, then at most one error, and nothing after that; there are not more of them than records
in the index when it began. If nothing comes after the tuples, all records have been visited or the
index or the log has none to give. If no file is started between the steps, the tuples and the error
are those that the files gave when the iteration began. At any time the next ordinal is not behind
the end, and no more items come than the ordinals between the two. -/
theorem items_in_order (fs : FileSystem) (r : Readers) (turns : List (List Call)) :
    let x := r.cachedIndex.index
    let begun := (r, x.cursor)
    let index := indexAt fs begun turns
    let items := Calls.answers (turn fs) begun turns
    ∃ (tuples : List Tuple) (error : Option SegmentError) (silent : Nat),
      items = tuples.map (fun t => some (.ok t)) ++
        error.toList.map (fun cause => some (.error cause)) ++ List.replicate silent none ∧
      tuples.length + error.toList.length ≤ x.length ∧
      (∀ i t, tuples[i]? = some t → (index i).tupleAt fs i = .ok (some t)) ∧
      (∀ cause, error = some cause →
        (index tuples.length).tupleAt fs tuples.length = .error cause) ∧
      (0 < silent → error = none → tuples.length = x.length ∨
        (index tuples.length).tupleAt fs tuples.length = .ok none) ∧
      ((∀ calls ∈ turns, ∀ c ∈ calls, ¬c.Starts) →
        (∀ i t, tuples[i]? = some t → x.tupleAt fs i = .ok (some t)) ∧
        ∀ cause, error = some cause → x.tupleAt fs tuples.length = .error cause) ∧
      ∀ n, let c := (Calls.stateAfter (turn fs) begun (turns.take n)).2
        c.next ≤ c.stop ∧ ((items.drop n).filter Option.isSome).length ≤ c.remaining := by
  intro x begun index items
  obtain ⟨tuples, error, silent, visits⟩ := exists_visits fs begun turns
  have hnext (i : Nat) : begun.2.next + i = i := Nat.zero_add i
  have hfound := visits.found
  have hfailed := visits.failed
  have hended := visits.ended
  simp only [hnext] at hfound hfailed hended
  refine ⟨tuples, error, silent, visits.items_eq, visits.length_le, hfound, hfailed, hended,
    fun hstarts => ⟨?_, ?_⟩, length_items_le_remaining fs (Nat.zero_le _) turns⟩
  · intro i t ht
    exact tupleAt_eq_of_not_started hstarts (hfound i t ht) (by simp)
  · intro cause hcause
    exact tupleAt_eq_of_not_started hstarts (hfailed cause hcause) (by simp)

/-- A log and an index of its two records, the greater key first, both running. -/
def opened : Readers :=
  let running : Service := ⟨.running, 0, none⟩
  let offsets := KeyIndex.offsetBytes [38, 10]
  ⟨⟨⟨.tupleLog, ⟨"x.sst"⟩, .mapped, running, some (.mapped KeyIndex.logInOrder)⟩, none⟩,
    ⟨⟨.keyIndex, ⟨"x.idx"⟩, .mapped, running, some (.mapped offsets)⟩, none⟩, none⟩

/-- The log is stopped after the first step: the second record never comes. -/
theorem items_in_order_stopped :
    let b : Tuple := ⟨"b", Box.fullSpace, [], 2, 4⟩
    let turns : List (List Call) := [[], [.log .shutdown, .log .finish], []]
    (∀ calls ∈ turns, ∀ c ∈ calls, ¬c.Starts) ∧
      Calls.answers (turn FileSystem.empty) (opened, opened.cachedIndex.index.cursor) turns =
        [some (.ok b), none, none] ∧
      opened.cachedIndex.index.tupleAt FileSystem.empty 0 = .ok (some b) := by
  intro b turns
  have hstarts : ∀ calls ∈ turns, ∀ c ∈ calls, ¬c.Starts := by
    simp [turns, Call.Starts]
  have hanswers : Calls.answers (turn FileSystem.empty)
      (opened, opened.cachedIndex.index.cursor) turns = [some (.ok b), none, none] := by rfl
  refine ⟨hstarts, hanswers, ?_⟩
  obtain ⟨tuples, error, silent, hitems, -, -, -, -, same, -⟩ :=
    items_in_order FileSystem.empty opened turns
  rw [hanswers] at hitems
  rcases tuples with _ | ⟨t, tuples⟩
  · rcases error with _ | cause
    · rcases silent with _ | silent <;> cases hitems
    · cases hitems
  · cases (List.cons.inj hitems).1
    exact (same hstarts).1 0 b rfl

end Readers

end SpatialSegment
