import SpatialSegment.File.Sharing
import SpatialSegment.Proofs.Lists

/-!
# The life of a shared file

A shared file is at every time in one of six phases, each of which tells the stage of its service,
whether the view is open, whether there may be users, and whether a call waits. So users come only
while the service runs, the view is open until the last of them has left, and a file that has been
closed or has failed stays so. The stages follow each other in one order, whatever the calls.
-/

namespace SpatialSegment

/-- The stages that may follow each other in the life of a service. -/
inductive Status.Next : Status → Status → Prop
  | start : Next .stopped .starting
  | run : Next .starting .running
  | fail : Next .starting .failed
  | stop : Next .running .stopping
  | terminate : Next .stopping .terminated

/-- The stages of a service that has been running. -/
def Status.hasRun : Status → Bool
  | .stopped => false
  | .starting => false
  | .running => true
  | .stopping => true
  | .terminated => true
  | .failed => false

namespace Service

variable {s : Service}

theorem isRunning_iff : s.isRunning = true ↔ s.status = .running := by
  rw [isRunning, beq_iff_eq]

theorem isUsed_iff : s.isUsed = true ↔ s.usage ≠ 0 := by
  rw [isUsed, decide_eq_true_iff, Nat.pos_iff_ne_zero]

/-- Without a user there is nothing to release. -/
theorem release_of_unused (h : s.usage = 0) : s.release = s := by
  obtain ⟨status, usage, failure⟩ := s
  cases h
  rfl

end Service

namespace GuardedFile

variable {f : GuardedFile}

/-- The two parts of starting, one behind the other, are starting as a whole. -/
theorem init_of_begin? {g : GuardedFile} (h : f.begin? = some g) (fs : FileSystem) :
    f.init fs = g.comeUp fs := by
  obtain ⟨service, hservice, rfl⟩ := Option.map_eq_some_iff.mp h
  rw [init, hservice]
  rfl

theorem begin?_eq_none_iff : f.begin? = none ↔ f.service.status ≠ .stopped := by
  rw [begin?, Option.map_eq_none_iff, Service.transition?, ite_eq_right_iff]
  simp

theorem status_begin? {g : GuardedFile} (h : f.begin? = some g) : g.service.status = .starting := by
  rw [begin?, Service.transition?] at h
  split at h
  · cases h
    rfl
  · cases h

theorem init_of_not_stopped (h : f.service.status ≠ .stopped) (fs : FileSystem) :
    f.init fs =
      (.error (.invalidOperation (.cannotStart f.format f.path f.service.status)), f) := by
  rw [init, Service.transition?, if_neg h]

theorem stop_of_running (h : f.service.status = .running) :
    f.stop = { f with service := f.service.set .stopping } := by
  rw [stop, Service.transition?, if_pos h]
  rfl

/-- A use gives what the view gives and leaves the file as it was, whatever the answer. -/
theorem visit_eq {α : Type} (f : GuardedFile) (answer : View → Result α) :
    f.visit answer = (f.use answer, f) := by
  cases hacquire : f.acquire? with
  | none =>
    have hservice : f.service.acquire? = none := Option.map_eq_none_iff.mp hacquire
    rw [visit, hacquire, use, hservice]
  | some g =>
    obtain ⟨service, hservice, rfl⟩ := Option.map_eq_some_iff.mp hacquire
    have hleave : release { f with service } = f := by
      rw [release, Service.release_acquire? hservice]
    rw [visit, hacquire, use, hservice]
    simp only [hleave]
    cases f.view <;> rfl

end GuardedFile

namespace SharedFile

/-- What a shared file can be like at a stage of its service. -/
inductive Phase : SharedFile → Prop
  | stopped {format path mode} : Phase ⟨⟨format, path, mode, ⟨.stopped, 0, none⟩, none⟩, none⟩
  | starting {format path mode} : Phase ⟨⟨format, path, mode, ⟨.starting, 0, none⟩, none⟩, none⟩
  | running {format path mode users view} :
      Phase ⟨⟨format, path, mode, ⟨.running, users, none⟩, some view⟩, none⟩
  | stopping {format path mode users view call} :
      Phase ⟨⟨format, path, mode, ⟨.stopping, users, none⟩, some view⟩, some call⟩
  | terminated {format path mode} :
      Phase ⟨⟨format, path, mode, ⟨.terminated, 0, none⟩, none⟩, none⟩
  | failed {format path mode cause} :
      Phase ⟨⟨format, path, mode, ⟨.failed, 0, some cause⟩, none⟩, none⟩

variable {s : SharedFile}

theorem Phase.view_open (phase : Phase s) : s.file.view.isSome = true ↔
    s.file.service.status = .running ∨ s.file.service.status = .stopping := by
  cases phase <;> simp

theorem Phase.used (phase : Phase s) (h : 0 < s.file.service.usage) :
    s.file.service.status = .running ∨ s.file.service.status = .stopping := by
  cases phase <;> simp at h ⊢

theorem Phase.failure (phase : Phase s) :
    s.file.service.failure.isSome = true ↔ s.file.service.status = .failed := by
  cases phase <;> simp

theorem Phase.waits (phase : Phase s) :
    s.waiting.isSome = true ↔ s.file.service.status = .stopping := by
  cases phase <;> simp

/-- Nobody uses the file, and its view is closed. -/
structure Idle (s : SharedFile) : Prop where
  unused : s.file.service.usage = 0
  closed : s.file.view = none
  stopped : s.file.service.status ≠ .running ∧ s.file.service.status ≠ .stopping

/-- A file that does not run is idle unless a call waits. -/
theorem Phase.idle_iff (phase : Phase s) (h : s.file.service.status ≠ .running) :
    Idle s ↔ s.waiting = none := by
  cases phase with
  | running => exact absurd rfl h
  | stopping => exact iff_of_false (fun idle => nomatch idle.closed) nofun
  | _ => exact iff_of_true ⟨rfl, rfl, nofun, nofun⟩ rfl

end SharedFile

namespace FileSharing

/-- The state with another service. -/
def withService (s : FileSharing) (service : Service) : FileSharing :=
  s.withFile { s.file with service }

/-- What a part of a call can make of the state. -/
inductive Moves (s : FileSharing) : Event → FileSharing → Prop
  | outside {fs : FileSystem} : Moves s .idle { s with fs }
  | starting (stopped : s.service.status = .stopped) :
      Moves s .starting (s.withService (s.service.set .starting))
  | notStopped (begun : s.service.status ≠ .stopped) : Moves s .notStopped s
  | running {view : View} (starting : s.service.status = .starting) :
      Moves s .running
        (s.withFile { s.file with service := s.service.set .running, view := some view })
  | failed {cause : String} (starting : s.service.status = .starting) :
      Moves s .failed (s.withService (s.service.fail cause))
  | acquired (running : s.service.status = .running) :
      Moves s .acquired (s.withService { s.service with usage := s.service.usage + 1 })
  | refused (idle : s.service.status ≠ .running) : Moves s .refused s
  | left (used : s.service.usage ≠ 0) : Moves s .left (s.withService s.service.release)
  | unmatched (unused : s.service.usage = 0) : Moves s .unmatched s
  | looked {event : Event} (h : event = .read ∨ event = .misread ∨ event = .unread) :
      Moves s event s
  | stopping {call : Waiting} (running : s.service.status = .running) :
      Moves s .stopping
        { s with shared := ⟨{ s.file with service := s.service.set .stopping }, some call⟩ }
  | skipped (idle : s.service.status ≠ .running) : Moves s .skipped s
  | removed {event : Event} {fs : FileSystem} (idle : s.service.status ≠ .running)
      (h : event = .removed ∨ event = .resisted) : Moves s event { s with fs }
  | finished {event : Event} {fs : FileSystem} {call : Waiting}
      (waiting : s.shared.waiting = some call) (unused : s.service.usage = 0)
      (h : event = .closed ∨ event = .removed ∨ event = .resisted) :
      Moves s event ⟨fs, ⟨s.file.close, none⟩⟩

theorem moves_visit (s : FileSharing) (answer : FileSystem → View → Result Unit) :
    ∃ event, s.step (.use answer) = (event, s) ∧
      (event = .read ∨ event = .misread ∨ event = .unread) := by
  rw [step, GuardedFile.visit_eq]
  cases s.file.use (answer s.fs) with
  | error cause => exact ⟨.misread, rfl, .inr (.inl rfl)⟩
  | ok found =>
    cases found with
    | none => exact ⟨.unread, rfl, .inr (.inr rfl)⟩
    | some _ => exact ⟨.read, rfl, .inl rfl⟩

theorem moves_release (s : FileSharing) :
    Moves s (if s.service.isUsed then .left else .unmatched)
      { s with shared := s.shared.release } := by
  rw [SharedFile.release, GuardedFile.release]
  by_cases h : s.service.usage = 0
  · rw [if_neg (mt Service.isUsed_iff.mp (not_not_intro h)), Service.release_of_unused h]
    exact .unmatched h
  · rw [if_pos (Service.isUsed_iff.mpr h)]
    exact .left h

theorem moves_shutdown (s : FileSharing) :
    Moves s (if s.service.isRunning then .stopping else .skipped)
      { s with shared := s.shared.beginShutdown } := by
  rw [SharedFile.beginShutdown]
  by_cases h : s.service.status = .running
  · rw [if_pos (Service.isRunning_iff.mpr h), if_pos (Service.isRunning_iff.mpr h),
      GuardedFile.stop_of_running h]
    exact .stopping h
  · rw [if_neg (mt Service.isRunning_iff.mp h), if_neg (mt Service.isRunning_iff.mp h)]
    exact .skipped h

theorem moves_delete (s : FileSharing) :
    let done := s.withRemoval (if s.service.isRunning then .stopping else .removed)
      (s.shared.beginDelete s.fs)
    Moves s done.1 done.2 := by
  dsimp only
  rw [SharedFile.beginDelete]
  by_cases h : s.service.status = .running
  · rw [if_pos (Service.isRunning_iff.mpr h), if_pos (Service.isRunning_iff.mpr h),
      GuardedFile.stop_of_running h]
    exact .stopping h
  · rw [if_neg (mt Service.isRunning_iff.mp h), if_neg (mt Service.isRunning_iff.mp h)]
    cases GuardedFile.removeFile s.fs s.file.path with
    | ok fs => exact .removed h (.inl rfl)
    | error cause => exact .removed h (.inr rfl)

/-- A call that waits goes on as soon as nobody uses the file. -/
theorem moves_finish (s : FileSharing) : Moves s (s.step .finish).1 (s.step .finish).2 := by
  rw [step, SharedFile.finish]
  cases hwaiting : s.shared.waiting with
  | none => exact .outside
  | some call =>
    by_cases h : s.service.usage = 0
    · have hunused := mt Service.isUsed_iff.mp (not_not_intro h)
      simp only [if_neg hunused]
      cases call with
      | shutdown => exact .finished hwaiting h (.inl rfl)
      | delete =>
        simp only
        cases GuardedFile.removeFile s.fs s.file.path with
        | ok fs => exact .finished hwaiting h (.inr (.inl rfl))
        | error cause => exact .finished hwaiting h (.inr (.inr rfl))
    · simp only [if_pos (Service.isUsed_iff.mpr h)]
      exact .outside

theorem moves_step (s : FileSharing) (action : Action) :
    Moves s (s.step action).1 (s.step action).2 := by
  cases action with
  | outside fs => exact .outside
  | init =>
    rw [step, GuardedFile.begin?, Service.transition?]
    by_cases h : s.service.status = .stopped
    · rw [if_pos h]
      exact .starting h
    · rw [if_neg h]
      exact .notStopped h
  | comeUp =>
    rw [step]
    by_cases h : s.service.status = .starting
    · rw [if_pos h, GuardedFile.comeUp]
      cases s.file.openChecked s.fs with
      | ok view => exact .running h
      | error cause => exact .failed h
    · rw [if_neg h]
      exact .outside
  | acquire =>
    rw [step, SharedFile.acquire?, GuardedFile.acquire?, Service.acquire?]
    by_cases h : s.service.status = .running
    · rw [if_pos h]
      exact .acquired h
    · rw [if_neg h]
      exact .refused h
  | release => exact moves_release s
  | use answer =>
    obtain ⟨event, hstep, h⟩ := moves_visit s answer
    rw [hstep]
    exact .looked h
  | shutdown => exact moves_shutdown s
  | delete => exact moves_delete s
  | finish => exact moves_finish s

section

variable {s s' : FileSharing} {event : Event} {events : List Event}

/-! ## Phases -/

theorem Moves.phase (moves : Moves s event s') (phase : s.shared.Phase) : s'.shared.Phase := by
  obtain ⟨fs, shared⟩ := s
  cases moves with
  | outside => exact phase
  | starting stopped =>
    cases phase with
    | stopped => exact .starting
    | _ => cases stopped
  | notStopped => exact phase
  | running starting =>
    cases phase with
    | starting => exact .running
    | _ => cases starting
  | failed starting =>
    cases phase with
    | starting => exact .failed
    | _ => cases starting
  | acquired running =>
    cases phase with
    | running => exact .running
    | _ => cases running
  | refused => exact phase
  | left used =>
    cases phase with
    | running => exact .running
    | stopping => exact .stopping
    | _ => exact absurd rfl used
  | unmatched => exact phase
  | looked => exact phase
  | stopping running =>
    cases phase with
    | running => exact .stopping
    | _ => cases running
  | skipped => exact phase
  | removed => exact phase
  | finished waiting unused =>
    cases phase with
    | stopping =>
      cases unused
      exact .terminated
    | _ => cases waiting

/-- A part of a call leaves the stage or moves on to the next one. -/
theorem Moves.status (moves : Moves s event s') (phase : s.shared.Phase) :
    s'.service.status = s.service.status ∨ Status.Next s.service.status s'.service.status := by
  cases moves with
  | starting stopped => exact .inr (stopped ▸ .start)
  | running starting => exact .inr (starting ▸ .run)
  | failed starting => exact .inr (starting ▸ .fail)
  | stopping running => exact .inr (running ▸ .stop)
  | finished waiting =>
    have hstopping : s.service.status = .stopping := phase.waits.mp (waiting ▸ rfl)
    exact .inr (hstopping ▸ .terminate)
  | _ => exact .inl rfl

/-! ## Users and starts -/

/-- What has come of the parts of calls so far agrees with the service. -/
structure Counted (events : List Event) (s : Service) : Prop where
  users : s.usage + events.count .left = events.count .acquired
  starts : events.count .running = if s.status.hasRun then 1 else 0

/-- Most parts of calls change neither the users nor whether the file has run. -/
theorem Counted.of_other {service service' : Service} (counted : Counted events service)
    (husers : service'.usage = service.usage)
    (hstarts : service'.status.hasRun = service.status.hasRun)
    (other : event ∉ [Event.left, .acquired, .running]) :
    Counted (events ++ [event]) service' := by
  simp only [List.mem_cons, List.not_mem_nil, or_false, not_or] at other
  obtain ⟨hleft, hacquired, hrunning⟩ := other
  constructor
  · rw [count_concat_of_ne hleft, count_concat_of_ne hacquired, husers]
    exact counted.users
  · rw [count_concat_of_ne hrunning, hstarts]
    exact counted.starts

theorem Counted.of_moves (counted : Counted events s.service) (phase : s.shared.Phase)
    (moves : Moves s event s') : Counted (events ++ [event]) s'.service := by
  have husers := counted.users
  have hstarts := counted.starts
  cases moves with
  | running starting =>
    constructor
    · rw [count_concat_of_ne (by decide), count_concat_of_ne (by decide)]
      exact husers
    · rw [count_concat_self, hstarts, starting]
      rfl
  | acquired =>
    constructor
    · rw [count_concat_of_ne (by decide), count_concat_self, ← husers]
      exact Nat.add_right_comm _ 1 _
    · rw [count_concat_of_ne (by decide)]
      exact hstarts
  | left hused =>
    constructor
    · change s.service.usage - 1 + _ = _
      rw [count_concat_self, count_concat_of_ne (by decide)]
      omega
    · rw [count_concat_of_ne (by decide)]
      exact hstarts
  | starting stopped => exact counted.of_other rfl (stopped ▸ rfl) (by decide)
  | failed starting => exact counted.of_other rfl (starting ▸ rfl) (by decide)
  | stopping running => exact counted.of_other rfl (running ▸ rfl) (by decide)
  | finished waiting _ h =>
    have hstopping : s.service.status = .stopping := phase.waits.mp (waiting ▸ rfl)
    refine counted.of_other rfl (hstopping ▸ rfl) ?_
    rcases h with rfl | rfl | rfl <;> decide
  | looked h => exact counted.of_other rfl rfl (by rcases h with rfl | rfl | rfl <;> decide)
  | removed _ h => exact counted.of_other rfl rfl (by rcases h with rfl | rfl <;> decide)
  | outside => exact counted.of_other rfl rfl (by decide)
  | notStopped => exact counted.of_other rfl rfl (by decide)
  | refused => exact counted.of_other rfl rfl (by decide)
  | unmatched => exact counted.of_other rfl rfl (by decide)
  | skipped => exact counted.of_other rfl rfl (by decide)

/-! ## Runs -/

/-- What holds after any parts of calls. -/
structure Lawful (events : List Event) (s : FileSharing) : Prop where
  phase : s.shared.Phase
  counted : Counted events s.service

theorem Lawful.of_moves (lawful : Lawful events s) (moves : Moves s event s') :
    Lawful (events ++ [event]) s' where
  phase := moves.phase lawful.phase
  counted := lawful.counted.of_moves lawful.phase moves

theorem Lawful.run (lawful : Lawful events s) (actions : List Action) :
    Lawful (events ++ (s.run actions).1) (s.run actions).2 := by
  induction actions generalizing events s with
  | nil => rwa [FileSharing.run, List.append_nil]
  | cons action actions ih =>
    have h := ih (lawful.of_moves (moves_step s action))
    rwa [List.append_assoc] at h

theorem lawful_run_new (fs : FileSystem) (format : FileFormat) (path : Path) (mode : ReadMode)
    (actions : List Action) :
    let start : FileSharing := ⟨fs, .new format path mode⟩
    Lawful (start.run actions).1 (start.run actions).2 := by
  intro start
  have hstart : Lawful [] start := ⟨.stopped, rfl, rfl⟩
  exact hstart.run actions

/-! ## Whole calls -/

/-- The parts of a call to start, one behind the other, are the whole call, unless another one is
about to come up. -/
theorem run_init (h : s.service.status ≠ .starting) :
    (s.run [.init, .comeUp]).2 = { s with shared := (s.shared.init s.fs).2 } ∧
      (.running ∈ (s.run [.init, .comeUp]).1 ↔ (s.shared.init s.fs).1.isOk = true) := by
  have hrun : s.run [.init, .comeUp] =
      ([(s.step .init).1, ((s.step .init).2.step .comeUp).1],
        ((s.step .init).2.step .comeUp).2) := rfl
  rw [hrun, SharedFile.init]
  cases hbegin : s.file.begin? with
  | none =>
    have hinit : s.step .init = (.notStopped, s) := by rw [step, hbegin]
    have hcome : s.step .comeUp = (.idle, s) := if_neg h
    rw [GuardedFile.init_of_not_stopped (GuardedFile.begin?_eq_none_iff.mp hbegin), hinit, hcome]
    exact ⟨rfl, by simp [Except.isOk, Except.toBool]⟩
  | some f =>
    have hinit : s.step .init = (.starting, s.withFile f) := by rw [step, hbegin]
    have hstarting : (s.withFile f).service.status = .starting := GuardedFile.status_begin? hbegin
    have hsame : f.comeUp s.fs = (s.withFile f).file.comeUp (s.withFile f).fs := rfl
    rw [GuardedFile.init_of_begin? hbegin, hinit, hsame]
    rcases hend : (s.withFile f).file.comeUp (s.withFile f).fs with ⟨_ | _, g⟩
    · have hcome : (s.withFile f).step .comeUp = (.failed, s.withFile g) := by
        rw [step, if_pos hstarting, hend]
        rfl
      rw [hcome]
      exact ⟨rfl, by simp [Except.isOk, Except.toBool]⟩
    · have hcome : (s.withFile f).step .comeUp = (.running, s.withFile g) := by
        rw [step, if_pos hstarting, hend]
        rfl
      rw [hcome]
      exact ⟨rfl, by simp [Except.isOk, Except.toBool]⟩

theorem step_acquire_iff : (s.step .acquire).1 = .acquired ↔ s.service.status = .running := by
  rw [step, SharedFile.acquire?, GuardedFile.acquire?, Service.acquire?]
  by_cases h : s.service.status = .running
  · rw [if_pos h]
    exact iff_of_true rfl h
  · rw [if_neg h]
    exact iff_of_false (by simp) h

theorem step_release_iff : (s.step .release).1 = .left ↔ 0 < s.service.usage := by
  rw [step, Nat.pos_iff_ne_zero, ← Service.isUsed_iff]
  split <;> simp_all

end

/-- What calls to a shared file keep to, after any that have been made. -/
structure Regular (events : List Event) (now : FileSharing) : Prop where
  /-- Every part of a call leaves the stage or moves on to the next one. -/
  stage : ∀ action, (now.step action).2.service.status = now.service.status ∨
    now.service.status.Next (now.step action).2.service.status
  acquired : (now.step .acquire).1 = .acquired ↔ now.service.status = .running
  view : now.file.view.isSome = true ↔
    now.service.status = .running ∨ now.service.status = .stopping
  used : 0 < now.service.usage →
    now.service.status = .running ∨ now.service.status = .stopping
  terminated : now.service.status = .terminated → now.service.usage = 0
  users : now.service.usage + events.count .left = events.count .acquired
  left : (now.step .release).1 = .left ↔ 0 < now.service.usage
  visit : ∀ {α : Type} (answer : View → Result α),
    now.file.visit answer = (now.file.use answer, now.file)
  failure : now.service.failure.isSome = true ↔ now.service.status = .failed
  starts : events.count .running ≤ 1
  begun : now.service.status ≠ .stopped → ∀ fs, now.shared.init fs =
    (.error (.invalidOperation (.cannotStart now.file.format now.file.path now.service.status)),
      now.shared)
  init : now.service.status ≠ .starting →
    (now.run [.init, .comeUp]).2 = { now with shared := (now.shared.init now.fs).2 } ∧
      (.running ∈ (now.run [.init, .comeUp]).1 ↔ (now.shared.init now.fs).1.isOk = true)
  finish : 0 < now.service.usage → now.step .finish = (.idle, now)

theorem Lawful.regular {events : List Event} {s : FileSharing} (lawful : Lawful events s) :
    Regular events s where
  stage action := (moves_step s action).status lawful.phase
  acquired := step_acquire_iff
  view := lawful.phase.view_open
  used := lawful.phase.used
  terminated h := by
    by_contra hused
    rcases lawful.phase.used (Nat.pos_of_ne_zero hused) with hrunning | hstopping
    · rw [h] at hrunning
      cases hrunning
    · rw [h] at hstopping
      cases hstopping
  users := lawful.counted.users
  left := step_release_iff
  visit := GuardedFile.visit_eq s.file
  failure := lawful.phase.failure
  starts := by
    rw [lawful.counted.starts]
    split <;> decide
  begun h fs := by rw [SharedFile.init, GuardedFile.init_of_not_stopped h]
  init := run_init
  finish h := by
    rw [step]
    cases s.shared.waiting with
    | none => rfl
    | some call => exact if_pos (Service.isUsed_iff.mpr (Nat.ne_of_gt h))

/-- Whatever calls are made to a new file, in whatever order their parts come and whatever other
programs do meanwhile, the file keeps to its life. -/
theorem regular_after_calls (fs : FileSystem) (format : FileFormat) (path : Path) (mode : ReadMode)
    (actions : List Action) :
    let start : FileSharing := ⟨fs, .new format path mode⟩
    Regular (start.run actions).1 (start.run actions).2 :=
  (lawful_run_new fs format path mode actions).regular

/-! ## Removal -/

section

variable {s : FileSharing}

theorem eq_delete_or_finish_of_removed {action : Action} (h : (s.step action).1 = .removed) :
    action = .delete ∨ action = .finish := by
  cases action with
  | delete => exact .inl rfl
  | finish => exact .inr rfl
  | outside fs => cases h
  | comeUp =>
    rw [step] at h
    split at h
    · split at h <;> cases h
    · cases h
  | use answer =>
    obtain ⟨event, hstep, hevent⟩ := moves_visit s answer
    rw [hstep] at h
    rcases hevent with rfl | rfl | rfl <;> cases h
  | init | acquire =>
    rw [step] at h
    split at h <;> cases h
  | release | shutdown =>
    rw [step] at h
    simp only at h
    split at h <;> cases h

theorem shared_of_delete (h : (s.step .delete).1 = .removed) :
    s.service.status ≠ .running ∧ (s.step .delete).2.shared = s.shared := by
  rw [step, SharedFile.beginDelete] at h ⊢
  by_cases hrunning : s.service.status = .running
  · have hruns := Service.isRunning_iff.mpr hrunning
    rw [if_pos hruns, if_pos hruns] at h
    cases h
  · have hrests := mt Service.isRunning_iff.mp hrunning
    rw [if_neg hrests, if_neg hrests]
    refine ⟨hrunning, ?_⟩
    cases GuardedFile.removeFile s.fs s.file.path <;> rfl

/-- A call that has waited finds the file idle, for it has just closed it. -/
theorem idle_of_finish (h : (s.step .finish).1 = .removed) : (s.step .finish).2.shared.Idle := by
  rw [step, SharedFile.finish] at h ⊢
  cases hwaiting : s.shared.waiting with
  | none =>
    rw [hwaiting] at h
    cases h
  | some call =>
    simp only [hwaiting] at h ⊢
    by_cases hunused : s.service.usage = 0
    · have hnot := mt Service.isUsed_iff.mp (not_not_intro hunused)
      simp only [if_neg hnot] at h ⊢
      cases call with
      | shutdown => cases h
      | delete =>
        simp only at h ⊢
        cases hremoval : GuardedFile.removeFile s.fs s.file.path with
        | ok fs =>
          refine ⟨hunused, rfl, ?_⟩
          constructor <;> intro h <;> cases h
        | error cause =>
          rw [hremoval] at h
          cases h
    · simp only [if_pos (Service.isUsed_iff.mpr hunused)] at h
      cases h

end

/-- When a call removes the file, nobody uses it and its view is closed, unless the call came while
another one was waiting for the users: such a call does not wait itself. -/
theorem removed_idle_iff (fs : FileSystem) (format : FileFormat) (path : Path) (mode : ReadMode)
    (actions : List Action) (action : Action)
    (removed : (((⟨fs, .new format path mode⟩ : FileSharing).run actions).2.step action).1 =
      .removed) :
    let now := ((⟨fs, .new format path mode⟩ : FileSharing).run actions).2
    (now.step action).2.shared.Idle ↔ (action = .delete → now.shared.waiting = none) := by
  intro now
  have phase : now.shared.Phase := (lawful_run_new fs format path mode actions).phase
  rcases eq_delete_or_finish_of_removed removed with rfl | rfl
  · obtain ⟨hrunning, hshared⟩ := shared_of_delete removed
    rw [hshared, phase.idle_iff hrunning]
    exact ⟨fun h _ => h, fun h => h rfl⟩
  · exact iff_of_true (idle_of_finish removed) nofun

/-- The one user leaves before the file is removed. -/
theorem removed_idle_after_release :
    let path : Path := ⟨"file.bin"⟩
    let fs : FileSystem := ⟨[(⟨false, ["file.bin"]⟩, .file 0)], [FileFormat.tupleLog.magic]⟩
    let start : FileSharing := ⟨fs, .new .tupleLog path .mapped⟩
    let now := (start.run [.init, .comeUp, .acquire, .delete, .release]).2
    (now.step .finish).1 = .removed ∧ (now.step .finish).2.shared.Idle := by
  dsimp only
  have removed := removed_idle_iff ⟨[(⟨false, ["file.bin"]⟩, .file 0)], [FileFormat.tupleLog.magic]⟩
    .tupleLog ⟨"file.bin"⟩ .mapped [.init, .comeUp, .acquire, .delete, .release] .finish
    (by decide +kernel)
  exact ⟨by decide +kernel, removed.mpr nofun⟩

/-- While a call to shut down waits for the one user, a call to delete removes the file. -/
theorem removed_under_user :
    let path : Path := ⟨"file.bin"⟩
    let fs : FileSystem := ⟨[(⟨false, ["file.bin"]⟩, .file 0)], [FileFormat.tupleLog.magic]⟩
    let start : FileSharing := ⟨fs, .new .tupleLog path .mapped⟩
    let now := (start.run [.init, .comeUp, .acquire, .shutdown]).2
    let after := (now.step .delete).2
    (now.step .delete).1 = .removed ∧ fs.isPresent path = true ∧
      after.fs.isPresent path = false ∧ after.service = ⟨.stopping, 1, none⟩ ∧
      after.file.view.isSome = true := by
  decide +kernel

end FileSharing

end SpatialSegment
