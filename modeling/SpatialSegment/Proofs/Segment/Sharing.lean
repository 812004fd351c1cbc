import SpatialSegment.Proofs.File.Removal
import SpatialSegment.Proofs.Lists
import SpatialSegment.Proofs.Segment.Opened
import SpatialSegment.Proofs.Segment.Success
import SpatialSegment.Segment.Sharing

/-!
# Deletion among calls that run side by side

Whatever the order of the parts of calls, users are counted right, one call at most takes the
deletion on, and it does so when deletion has been asked for and nobody uses the segment. A look at
deletion is under way as long as the deletion is due and nobody has taken it on, so no request is
lost. The files stay until then, and those that do not resist are gone at the end.
-/

namespace SpatialSegment

namespace Segment

namespace Sharing

/-- What a part of a call can make of the state. -/
inductive Moves (s : Sharing) : Event → Sharing → Prop
  | acquired (open_ : s.segment.usage.deleteAsked = false) :
      Moves s .acquired
        (s.withUsage { s.segment.usage with users := s.segment.usage.users + 1 })
  | refused (asked : s.segment.usage.deleteAsked = true) : Moves s .refused s
  | left (used : s.segment.usage.users ≠ 0) :
      Moves s .left
        { s.withUsage { s.segment.usage with users := s.segment.usage.users - 1 } with
          calls := s.calls ++ [.settle] }
  | unmatched (unused : s.segment.usage.users = 0) : Moves s .unmatched s
  | asked :
      Moves s .asked
        { s.withUsage { s.segment.usage with deleteAsked := true } with
          calls := s.calls ++ [.settle] }
  | notDue {call : Nat} (task : s.calls[call]? = some .settle)
      (other : s.segment.usage.deleteAsked = true → s.segment.usage.users = 0 →
        s.segment.usage.deleted = true) :
      Moves s .notDue { s with calls := s.calls.eraseIdx call }
  | claimed {call : Nat} (task : s.calls[call]? = some .settle)
      (asked : s.segment.usage.deleteAsked = true) (unused : s.segment.usage.users = 0)
      (first : s.segment.usage.deleted = false) :
      Moves s .claimed
        { s.withUsage { s.segment.usage with deleted := true } with
          calls := s.calls.set call .close }
  | closed {call : Nat} (task : s.calls[call]? = some .close) :
      Moves s .closed
        { s with segment := s.segment.shutdown
                 calls := s.calls.set call (.remove s.segment.files.removalOrder) }
  | removed {call : Nat} {path : Path} {rest : List Path} {fs : FileSystem}
      (task : s.calls[call]? = some (.remove (path :: rest)))
      (removal : s.fs.removeIfPresent path = .ok fs) :
      Moves s (.removed path) { s with fs, calls := s.calls.set call (.remove rest) }
  | resisted {call : Nat} {path : Path} {rest : List Path} {cause : IoFault}
      (task : s.calls[call]? = some (.remove (path :: rest))) :
      Moves s (.resisted path cause) { s with calls := s.calls.set call (.remove rest) }
  | finished {call : Nat} (task : s.calls[call]? = some (.remove [])) :
      Moves s .finished { s with calls := s.calls.eraseIdx call }
  | idle : Moves s .idle s

theorem moves_proceed {s : Sharing} {call : Nat} {task : Task} (h : s.calls[call]? = some task) :
    Moves s (s.proceed call task).1 (s.proceed call task).2 := by
  cases task with
  | settle =>
    rw [proceed]
    cases hclaim : s.segment.usage.claimDeletion? with
    | none =>
      refine .notDue h fun hasked hunused => ?_
      rw [Usage.claimDeletion?, hasked, hunused] at hclaim
      simpa using hclaim
    | some usage =>
      rw [Usage.claimDeletion?] at hclaim
      split at hclaim
      · cases hclaim
      · rename_i hdue
        cases hclaim
        simp only [Bool.or_eq_true, Bool.not_eq_true', decide_eq_true_eq, not_or,
          Bool.not_eq_false, Bool.not_eq_true, Nat.not_lt, Nat.le_zero] at hdue
        exact .claimed h hdue.1.1 hdue.1.2 hdue.2
  | close => exact .closed h
  | remove paths =>
    cases paths with
    | nil => exact .finished h
    | cons path rest =>
      rw [proceed]
      cases hremoval : s.fs.removeIfPresent path with
      | ok fs => exact .removed h hremoval
      | error cause => exact .resisted h

theorem moves_step (s : Sharing) (action : Action) :
    Moves s (s.step action).1 (s.step action).2 := by
  cases action with
  | acquire =>
    rw [step, acquire?, Usage.acquire?]
    by_cases hasked : s.segment.usage.deleteAsked = true
    · rw [if_pos hasked]
      exact .refused hasked
    · rw [if_neg hasked]
      exact .acquired (Bool.eq_false_iff.mpr hasked)
  | release =>
    rw [step, Usage.leave?]
    by_cases hunused : s.segment.usage.users = 0
    · rw [if_pos hunused]
      exact .unmatched hunused
    · rw [if_neg hunused]
      exact .left hunused
  | requestDeletion => exact .asked
  | proceed call =>
    rw [step]
    cases htask : s.calls[call]? with
    | none => exact .idle
    | some task => exact moves_proceed htask

/-! ## Users and the claim of the deletion -/

/-- What has come of the parts of calls so far agrees with the usage. -/
structure Counted (events : List Event) (u : Usage) : Prop where
  users : u.users + events.count .left = events.count .acquired
  claims : events.count .claimed = if u.deleted then 1 else 0
  due : u.deleted = true → u.deleteAsked = true ∧ u.users = 0

section

variable {events : List Event} {event : Event} {start s s' : Sharing} {u : Usage}

/-- Most parts of calls change neither the users nor the claim. -/
theorem Counted.of_other (counted : Counted events u)
    (other : event ∉ [Event.left, .acquired, .claimed]) : Counted (events ++ [event]) u := by
  simp only [List.mem_cons, List.not_mem_nil, or_false, not_or] at other
  obtain ⟨hleft, hacquired, hclaimed⟩ := other
  constructor
  · rw [count_concat_of_ne hleft, count_concat_of_ne hacquired]
    exact counted.users
  · rw [count_concat_of_ne hclaimed]
    exact counted.claims
  · exact counted.due

theorem Counted.acquired (counted : Counted events u) (hopen : u.deleteAsked = false) :
    Counted (events ++ [.acquired]) { u with users := u.users + 1 } := by
  constructor
  · rw [count_concat_of_ne (by decide), count_concat_self, ← counted.users]
    exact Nat.add_right_comm _ 1 _
  · rw [count_concat_of_ne (by decide)]
    exact counted.claims
  · intro hdeleted
    have hasked := (counted.due hdeleted).1
    rw [hopen] at hasked
    cases hasked

theorem Counted.left (counted : Counted events u) (hused : u.users ≠ 0) :
    Counted (events ++ [.left]) { u with users := u.users - 1 } := by
  have husers := counted.users
  constructor
  · rw [count_concat_self, count_concat_of_ne (by decide)]
    dsimp only
    omega
  · rw [count_concat_of_ne (by decide)]
    exact counted.claims
  · intro hdeleted
    exact absurd (counted.due hdeleted).2 hused

theorem Counted.asked (counted : Counted events u) :
    Counted (events ++ [.asked]) { u with deleteAsked := true } := by
  obtain ⟨husers, hclaims, hdue⟩ : Counted (events ++ [.asked]) u := counted.of_other (by decide)
  exact ⟨husers, hclaims, fun hdeleted => ⟨rfl, (hdue hdeleted).2⟩⟩

theorem Counted.claimed (counted : Counted events u) (hasked : u.deleteAsked = true)
    (hunused : u.users = 0) (hfirst : u.deleted = false) :
    Counted (events ++ [.claimed]) { u with deleted := true } := by
  constructor
  · rw [count_concat_of_ne (by decide), count_concat_of_ne (by decide)]
    exact counted.users
  · rw [count_concat_self, counted.claims, hfirst]
    rfl
  · intro _
    exact ⟨hasked, hunused⟩

theorem Counted.of_moves (counted : Counted events s.segment.usage) (moves : Moves s event s') :
    Counted (events ++ [event]) s'.segment.usage := by
  cases moves with
  | acquired hopen => exact counted.acquired hopen
  | left hused => exact counted.left hused
  | asked => exact counted.asked
  | claimed task hasked hunused hfirst => exact counted.claimed hasked hunused hfirst
  | refused => exact counted.of_other (by decide)
  | unmatched => exact counted.of_other (by decide)
  | notDue => exact counted.of_other (by decide)
  | closed => exact counted.of_other (by decide)
  | removed => exact counted.of_other (by simp)
  | resisted => exact counted.of_other (by simp)
  | finished => exact counted.of_other (by decide)
  | idle => exact counted.of_other (by decide)

/-! ## Calls under way -/

/-- A look at deletion is under way as long as one is due, and before the claim nothing else is. -/
structure Attended (s : Sharing) : Prop where
  due : s.segment.usage.deleteAsked = true → s.segment.usage.users = 0 →
    s.segment.usage.deleted = false → Task.settle ∈ s.calls
  before : s.segment.usage.deleted = false → ∀ task ∈ s.calls, task = .settle

theorem Attended.deleted_of_task (attended : Attended s) {call : Nat} {task : Task}
    (h : s.calls[call]? = some task) (hne : task ≠ .settle) : s.segment.usage.deleted = true := by
  by_contra hdeleted
  exact hne (attended.before (Bool.eq_false_iff.mpr hdeleted) task (List.mem_of_getElem? h))

theorem Attended.of_deleted (h : s.segment.usage.deleted = true) : Attended s := by
  constructor
  · intro _ _ hdeleted
    rw [h] at hdeleted
    cases hdeleted
  · intro hdeleted
    rw [h] at hdeleted
    cases hdeleted

theorem Attended.of_moves (attended : Attended s) (moves : Moves s event s') : Attended s' := by
  -- A call that looks at deletion later stands at the end of those under way.
  have later : s.segment.usage.deleted = false →
      ∀ task ∈ s.calls ++ [Task.settle], task = .settle := by
    intro hdeleted task htask
    rcases List.mem_append.mp htask with hold | hnew
    · exact attended.before hdeleted task hold
    · exact List.mem_singleton.mp hnew
  cases moves with
  | acquired hopen =>
    constructor
    · intro hasked
      rw [withUsage, hopen] at hasked
      cases hasked
    · exact attended.before
  | left => exact ⟨fun _ _ _ => List.mem_append_right _ List.mem_cons_self, later⟩
  | asked => exact ⟨fun _ _ _ => List.mem_append_right _ List.mem_cons_self, later⟩
  | notDue task hother =>
    constructor
    · intro hasked hunused hdeleted
      have hdeleted' := hother hasked hunused
      rw [hdeleted] at hdeleted'
      cases hdeleted'
    · intro hdeleted task htask
      exact attended.before hdeleted task (List.mem_of_mem_eraseIdx htask)
  | claimed => exact .of_deleted rfl
  | closed task => exact .of_deleted (attended.deleted_of_task task (by simp))
  | removed task => exact .of_deleted (attended.deleted_of_task task (by simp))
  | resisted task => exact .of_deleted (attended.deleted_of_task task (by simp))
  | finished task => exact .of_deleted (attended.deleted_of_task task (by simp))
  | refused => exact attended
  | unmatched => exact attended
  | idle => exact attended

/-! ## The files -/

/-- The file at the path is still to be removed in the course of the call. -/
def Covers (path : Path) : Task → Prop
  | .settle => False
  | .close => True
  | .remove paths => path ∈ paths

/-- The file at the path is gone, or it is still to be removed in the course of a call. -/
def GoneOrCovered (s : Sharing) (path : Path) : Prop :=
  s.fs.isPresent path = false ∨ ∃ task ∈ s.calls, Covers path task

/-- The files stay until the claim; those that have not resisted afterwards are gone or still to be
removed. -/
structure Filed (start : Sharing) (events : List Event) (s : Sharing) : Prop where
  files : s.segment.files = start.segment.files
  before : s.segment.usage.deleted = false → s.fs = start.fs
  after : (∀ path cause, .resisted path cause ∉ events) → s.segment.usage.deleted = true →
    ∀ path ∈ start.segment.files.removalOrder, GoneOrCovered s path

/-- A part of a call that covers no path may end it. -/
theorem exists_covers_eraseIdx {calls : List Task} {call : Nat} {done : Task} {path : Path}
    (h : calls[call]? = some done) (hdone : ¬ Covers path done)
    (covered : ∃ task ∈ calls, Covers path task) :
    ∃ task ∈ calls.eraseIdx call, Covers path task := by
  obtain ⟨task, htask, hcovers⟩ := covered
  obtain ⟨i, hi⟩ := List.getElem?_of_mem htask
  refine ⟨task, List.mem_eraseIdx_iff_getElem?.mpr ⟨i, ?_, hi⟩, hcovers⟩
  rintro rfl
  rw [h] at hi
  cases hi
  exact hdone hcovers

/-- What a call covers is covered when it has gone on, unless it was the part just done. -/
theorem exists_covers_set {calls : List Task} {call : Nat} {task next : Task} {path : Path}
    (h : calls[call]? = some task) (hnext : Covers path task → Covers path next)
    (covered : ∃ task ∈ calls, Covers path task) :
    ∃ task ∈ calls.set call next, Covers path task := by
  obtain ⟨other, hother, hcovers⟩ := covered
  obtain ⟨i, hi⟩ := List.getElem?_of_mem hother
  by_cases hcall : i = call
  · subst hcall
    rw [h] at hi
    cases hi
    exact ⟨next, List.mem_set (List.getElem?_eq_some_iff.mp h).1 _, hnext hcovers⟩
  · refine ⟨other, List.mem_of_getElem? (i := i) ?_, hcovers⟩
    rw [List.getElem?_set_ne (Ne.symm hcall)]
    exact hi

/-- If nothing resists in the next part either, each path is gone or covered before it. -/
theorem Filed.goneOrCovered (filed : Filed start events s)
    (hnone : ∀ path cause, .resisted path cause ∉ events ++ [event])
    (hdeleted : s.segment.usage.deleted = true) {path : Path}
    (hpath : path ∈ start.segment.files.removalOrder) : GoneOrCovered s path := by
  refine filed.after (fun path cause hmem => ?_) hdeleted path hpath
  exact hnone path cause (List.mem_append_left _ hmem)

/-- A part of a call that removes no file. -/
theorem Filed.of_same (filed : Filed start events s)
    (hfiles : s'.segment.files = s.segment.files)
    (hdeleted : s'.segment.usage.deleted = s.segment.usage.deleted) (hfs : s'.fs = s.fs)
    (hcalls : ∀ path ∈ s.segment.files.removalOrder, (∃ task ∈ s.calls, Covers path task) →
      ∃ task ∈ s'.calls, Covers path task) : Filed start (events ++ [event]) s' := by
  constructor
  · exact hfiles.trans filed.files
  · intro h
    rw [hfs]
    exact filed.before (hdeleted ▸ h)
  · intro hnone h path hpath
    rcases filed.goneOrCovered hnone (hdeleted ▸ h) hpath with hgone | hcovered
    · exact .inl (hfs ▸ hgone)
    · exact .inr (hcalls path (filed.files ▸ hpath) hcovered)

/-- A path whose file is removed is covered no more, and gone. -/
theorem Filed.of_removed (filed : Filed start events s)
    (hdeleted : s.segment.usage.deleted = true) {call : Nat} {path : Path} {rest : List Path}
    {fs : FileSystem} (task : s.calls[call]? = some (.remove (path :: rest)))
    (removal : s.fs.removeIfPresent path = .ok fs) :
    Filed start (events ++ [.removed path])
      { s with fs, calls := s.calls.set call (.remove rest) } := by
  obtain ⟨habsent, keeps⟩ := FileSystem.removed_of_removeIfPresent removal
  constructor
  · exact filed.files
  · intro h
    rw [hdeleted] at h
    cases h
  · intro hnone _ other hother
    by_cases hpath : other = path
    · exact .inl (hpath ▸ habsent)
    · rcases filed.goneOrCovered hnone hdeleted hother with hgone | hcovered
      · exact .inl (keeps.absent hgone)
      · refine .inr (exists_covers_set task (fun hmem => ?_) hcovered)
        exact (List.mem_cons.mp hmem).resolve_left hpath

theorem Filed.of_moves (filed : Filed start events s) (attended : Attended s)
    (moves : Moves s event s') : Filed start (events ++ [event]) s' := by
  cases moves with
  | acquired => exact filed.of_same rfl rfl rfl fun _ _ covered => covered
  | refused => exact filed.of_same rfl rfl rfl fun _ _ covered => covered
  | left =>
    refine filed.of_same rfl rfl rfl ?_
    rintro path - ⟨task, htask, hcovers⟩
    exact ⟨task, List.mem_append_left _ htask, hcovers⟩
  | unmatched => exact filed.of_same rfl rfl rfl fun _ _ covered => covered
  | asked =>
    refine filed.of_same rfl rfl rfl ?_
    rintro path - ⟨task, htask, hcovers⟩
    exact ⟨task, List.mem_append_left _ htask, hcovers⟩
  | notDue task =>
    exact filed.of_same rfl rfl rfl fun _ _ => exists_covers_eraseIdx task id
  | claimed task =>
    constructor
    · exact filed.files
    · intro hdeleted
      cases hdeleted
    · intro _ _ path _
      exact .inr ⟨.close, List.mem_set (List.getElem?_eq_some_iff.mp task).1 _, trivial⟩
  | closed task =>
    exact filed.of_same rfl rfl rfl fun path hpath => exists_covers_set task fun _ => hpath
  | removed task removal =>
    exact filed.of_removed (attended.deleted_of_task task (by simp)) task removal
  | @resisted call path rest cause task =>
    have hdeleted := attended.deleted_of_task task (by simp)
    constructor
    · exact filed.files
    · intro h
      rw [hdeleted] at h
      cases h
    · intro hnone
      exact absurd (List.mem_append_right _ List.mem_cons_self) (hnone path cause)
  | finished task =>
    exact filed.of_same rfl rfl rfl fun _ _ => exists_covers_eraseIdx task List.not_mem_nil
  | idle => exact filed.of_same rfl rfl rfl fun _ _ covered => covered

/-! ## Runs -/

/-- What holds after any parts of calls. -/
structure Orderly (start : Sharing) (events : List Event) (s : Sharing) : Prop where
  counted : Counted events s.segment.usage
  attended : Attended s
  filed : Filed start events s

theorem Orderly.of_moves (orderly : Orderly start events s) (moves : Moves s event s') :
    Orderly start (events ++ [event]) s' where
  counted := orderly.counted.of_moves moves
  attended := orderly.attended.of_moves moves
  filed := orderly.filed.of_moves orderly.attended moves

theorem Orderly.run (orderly : Orderly start events s) (actions : List Action) :
    Orderly start (events ++ (s.run actions).1) (s.run actions).2 := by
  induction actions generalizing events s with
  | nil => rwa [Sharing.run, List.append_nil]
  | cons action actions ih =>
    have h := ih (orderly.of_moves (moves_step s action))
    rwa [List.append_assoc] at h

theorem orderly_start (h : start.segment.usage = Usage.none) (hcalls : start.calls = []) :
    Orderly start [] start := by
  refine ⟨?_, ⟨?_, ?_⟩, ⟨rfl, fun _ => rfl, ?_⟩⟩
  · rw [h]
    exact ⟨rfl, rfl, fun hdeleted => nomatch hdeleted⟩
  · intro hasked
    rw [h] at hasked
    cases hasked
  · intro _ task htask
    rw [hcalls] at htask
    cases htask
  · intro _ hdeleted
    rw [h] at hdeleted
    cases hdeleted

/-- A request and a claim of the deletion are never taken back. -/
theorem Moves.lasting (moves : Moves s event s') :
    (s.segment.usage.deleteAsked = true → s'.segment.usage.deleteAsked = true) ∧
      (s.segment.usage.deleted = true → s'.segment.usage.deleted = true) := by
  cases moves with
  | asked => exact ⟨fun _ => rfl, id⟩
  | claimed => exact ⟨id, fun _ => rfl⟩
  | _ => exact ⟨id, id⟩

theorem lasting_run (s : Sharing) (actions : List Action) :
    (s.segment.usage.deleteAsked = true → (s.run actions).2.segment.usage.deleteAsked = true) ∧
      (s.segment.usage.deleted = true → (s.run actions).2.segment.usage.deleted = true) := by
  induction actions generalizing s with
  | nil => exact ⟨id, id⟩
  | cons action actions ih =>
    obtain ⟨hasked, hdeleted⟩ := (moves_step s action).lasting
    obtain ⟨hasked', hdeleted'⟩ := ih (s.step action).2
    exact ⟨fun h => hasked' (hasked h), fun h => hdeleted' (hdeleted h)⟩

theorem step_acquire_of_asked (h : s.segment.usage.deleteAsked = true) :
    s.step .acquire = (.refused, s) := by
  rw [step, acquire?, Usage.acquire?, if_pos h]
  rfl

theorem Moves.due (moves : Moves s .claimed s') :
    s.segment.usage.deleteAsked = true ∧ s.segment.usage.users = 0 ∧
      s.segment.usage.deleted = false := by
  cases moves with
  | claimed _ hasked hunused hfirst => exact ⟨hasked, hunused, hfirst⟩

theorem step_release_iff : (s.step .release).1 = .left ↔ 0 < s.segment.usage.users := by
  rw [step, Usage.leave?, Nat.pos_iff_ne_zero]
  by_cases h : s.segment.usage.users = 0
  · rw [if_pos h]
    exact iff_of_false (by simp) (not_not_intro h)
  · rw [if_neg h]
    exact iff_of_true rfl h

/-- A call that goes on makes no user less. -/
theorem proceed_ne_left (s : Sharing) (call : Nat) (task : Task) :
    (s.proceed call task).1 ≠ .left := by
  cases task with
  | settle =>
    rw [proceed]
    cases s.segment.usage.claimDeletion? <;> simp
  | close => simp [proceed]
  | remove paths =>
    cases paths with
    | nil => simp [proceed]
    | cons path rest =>
      rw [proceed]
      cases s.fs.removeIfPresent path <;> simp

/-- The first part of a call to leave is the only one that makes a user less. -/
theorem step_left_iff {action : Action} :
    (s.step action).1 = .left ↔ action = .release ∧ 0 < s.segment.usage.users := by
  constructor
  · intro h
    cases action with
    | release => exact ⟨rfl, step_release_iff.mp h⟩
    | acquire =>
      rw [step] at h
      split at h <;> cases h
    | requestDeletion => cases h
    | proceed call =>
      rw [step] at h
      split at h
      · exact absurd h (proceed_ne_left s call _)
      · cases h
  · rintro ⟨rfl, hused⟩
    exact step_release_iff.mpr hused

/-! ## Whole calls -/

theorem run_cons (s : Sharing) (action : Action) (actions : List Action) :
    (s.run (action :: actions)).2 = ((s.step action).2.run actions).2 := rfl

theorem run_idle (fs : FileSystem) (segment : Segment) (k : Nat) :
    ((⟨fs, segment, []⟩ : Sharing).run (List.replicate k (.proceed 0))).2 = ⟨fs, segment, []⟩ := by
  induction k with
  | zero => rfl
  | succ k ih =>
    rw [List.replicate_succ]
    exact ih

/-- A removal gives the same files whether it is a part of a call or one of several at once. -/
theorem step_remove (fs : FileSystem) (segment : Segment) (path : Path) (rest : List Path) :
    (step ⟨fs, segment, [.remove (path :: rest)]⟩ (.proceed 0)).2 =
      ⟨removeAll fs [path], segment, [.remove rest]⟩ := by
  simp only [step, proceed, List.getElem?_cons_zero, List.set_cons_zero, removeAll,
    List.foldl_cons, List.foldl_nil]
  cases fs.removeIfPresent path <;> rfl

theorem run_remove (fs : FileSystem) (segment : Segment) (paths : List Path) :
    ((⟨fs, segment, [.remove paths]⟩ : Sharing).run
      (List.replicate (paths.length + 1) (.proceed 0))).2 = ⟨removeAll fs paths, segment, []⟩ := by
  induction paths generalizing fs with
  | nil => rfl
  | cons path paths ih =>
    rw [List.length_cons, List.replicate_succ, run_cons, step_remove]
    exact ih (removeAll fs [path])

theorem run_settle (fs : FileSystem) (segment : Segment) :
    ((⟨fs, segment, [.settle]⟩ : Sharing).run (List.replicate 8 (.proceed 0))).2 =
      ⟨(segment.settleDeletion fs).1, (segment.settleDeletion fs).2, []⟩ := by
  rw [List.replicate_succ, run_cons, settleDeletion]
  cases hclaim : segment.usage.claimDeletion? with
  | none =>
    have hstep : (step ⟨fs, segment, [.settle]⟩ (.proceed 0)).2 = ⟨fs, segment, []⟩ := by
      simp only [step, proceed, List.getElem?_cons_zero, hclaim, List.eraseIdx_cons_zero]
    rw [hstep, run_idle]
  | some usage =>
    have hstep : (step ⟨fs, segment, [.settle]⟩ (.proceed 0)).2 =
        ⟨fs, { segment with usage }, [.close]⟩ := by
      simp only [step, proceed, List.getElem?_cons_zero, hclaim, List.set_cons_zero, withUsage]
    have hclose : (step ⟨fs, { segment with usage }, [.close]⟩ (.proceed 0)).2 =
        ⟨fs, shutdown { segment with usage }, [.remove segment.files.removalOrder]⟩ := rfl
    rw [hstep, List.replicate_succ, run_cons, hclose]
    exact run_remove fs (shutdown { segment with usage }) segment.files.removalOrder

/-- The parts of a call to leave, one behind the other, are the whole call. -/
theorem run_release (fs : FileSystem) (segment : Segment) :
    ((⟨fs, segment, []⟩ : Sharing).run (.release :: List.replicate 8 (.proceed 0))).2 =
      ⟨(segment.release fs).1, (segment.release fs).2, []⟩ := by
  rw [run_cons, Segment.release]
  cases hleave : segment.usage.leave? with
  | none =>
    have hstep : (step ⟨fs, segment, []⟩ .release).2 = ⟨fs, segment, []⟩ := by
      simp only [step, hleave]
    rw [hstep, run_idle]
  | some usage =>
    have hstep : (step ⟨fs, segment, []⟩ .release).2 = ⟨fs, { segment with usage }, [.settle]⟩ := by
      simp only [step, hleave, withUsage, List.nil_append]
    rw [hstep, run_settle]

/-- The parts of a call to delete, one behind the other, are the whole call. -/
theorem run_requestDeletion (fs : FileSystem) (segment : Segment) :
    ((⟨fs, segment, []⟩ : Sharing).run (.requestDeletion :: List.replicate 8 (.proceed 0))).2 =
      ⟨(segment.requestDeletion fs).1, (segment.requestDeletion fs).2, []⟩ := by
  have hstep : (step ⟨fs, segment, []⟩ .requestDeletion).2 =
      ⟨fs, { segment with usage := segment.usage.askDeletion }, [.settle]⟩ := rfl
  rw [run_cons, hstep, run_settle, requestDeletion]

end

end Sharing

theorem usage_of_open {fs : FileSystem} {base : Path} {table : TableName} {number : UInt64}
    {config : Config} {segment : Segment} (h : open? fs base table number config = .ok segment) :
    segment.usage = Usage.none := by
  obtain ⟨_, -, h⟩ := bind_eq_ok.mp h
  obtain ⟨_, -, h⟩ := bind_eq_ok.mp h
  obtain ⟨_, -, h⟩ := bind_eq_ok.mp h
  obtain ⟨_, -, h⟩ := bind_eq_ok.mp h
  obtain ⟨_, -, h⟩ := bind_eq_ok.mp h
  cases h
  rfl

theorem mem_removalOrder {files : SegmentPaths} {path : Path} :
    path ∈ files.removalOrder ↔ path ∈ files.toList := by
  simp only [SegmentPaths.removalOrder, SegmentPaths.toList, List.mem_cons]
  exact or_left_comm

/-- However the parts of calls to a segment that has been opened are mixed, there are as many users
as have come and not left, and only a call to leave makes one less, exactly when there is one. Once
deletion has been asked for nobody comes any more. One call at most takes the deletion on, and only
when it has been asked for and nobody uses the segment; nobody ever does again. When no call is
under way a deletion that is due has been taken on. Until then the files stay as they are, and at
the end those that do not resist are gone. -/
theorem deletion_of_shared (fs : FileSystem) (base : Path) (table : TableName) (number : UInt64)
    (config : Config) (segment : Segment) (opened : open? fs base table number config = .ok segment)
    (actions : List Action) :
    let start : Sharing := ⟨fs, segment, []⟩
    let events := (start.run actions).1
    let now := (start.run actions).2
    let usage := now.segment.usage
    usage.users + events.count .left = events.count .acquired ∧
      (∀ action, (now.step action).1 = .left ↔ action = .release ∧ 0 < usage.users) ∧
      (usage.deleteAsked = true → ∀ more, let later := (now.run more).2
        later.segment.acquire? = none ∧ later.step .acquire = (.refused, later)) ∧
      events.count .claimed ≤ 1 ∧ (Event.claimed ∈ events ↔ usage.deleted = true) ∧
      (∀ action, (now.step action).1 = .claimed →
        usage.deleteAsked = true ∧ usage.users = 0 ∧ usage.deleted = false) ∧
      (usage.deleted = true → ∀ more, (now.run more).2.segment.usage.users = 0) ∧
      (now.calls = [] → usage.deleteAsked = true → usage.users = 0 → usage.deleted = true) ∧
      (usage.deleted = false → now.fs = fs) ∧
      ((∀ path cause, Event.resisted path cause ∉ events) → usage.deleted = true →
        (∀ task ∈ now.calls, task = .settle) →
        ∀ path ∈ segment.files.toList, now.fs.isPresent path = false) := by
  intro start events now usage
  have orderly : Sharing.Orderly start events now := by
    have hstart : Sharing.Orderly start [] start := Sharing.orderly_start (usage_of_open opened) rfl
    have h := hstart.run actions
    rwa [List.nil_append] at h
  have hclaims := orderly.counted.claims
  refine ⟨orderly.counted.users, fun _ => Sharing.step_left_iff, ?_, ?_, ?_, ?_, ?_, ?_,
    orderly.filed.before, ?_⟩
  · intro hasked more later
    have hasked' := (Sharing.lasting_run now more).1 hasked
    refine ⟨?_, Sharing.step_acquire_of_asked hasked'⟩
    rw [acquire?, Usage.acquire?, if_pos hasked']
    rfl
  · rw [hclaims]
    split <;> omega
  · rw [← List.count_pos_iff, hclaims]
    cases now.segment.usage.deleted <;> simp
  · intro action h
    have moves := Sharing.moves_step now action
    rw [h] at moves
    exact moves.due
  · intro hdeleted more
    have hdeleted' := (Sharing.lasting_run now more).2 hdeleted
    exact ((orderly.run more).counted.due hdeleted').2
  · intro hcalls hasked hunused
    by_contra hdeleted
    have hmem := orderly.attended.due hasked hunused (Bool.eq_false_iff.mpr hdeleted)
    rw [hcalls] at hmem
    cases hmem
  · intro hnone hdeleted hcalls path hpath
    rcases orderly.filed.after hnone hdeleted path (mem_removalOrder.mpr hpath) with
      hgone | ⟨task, htask, hcovers⟩
    · exact hgone
    · rw [hcalls task htask] at hcovers
      cases hcovers

/-- A segment that is to be deleted while it is used: the next user is refused, and when the one
user has left, the deletion is taken on. -/
theorem deletion_of_shared_one :
    ∃ fs segment, open? fs ⟨"db"⟩ ⟨"g", "t", none, by decide, by decide⟩ 1 Config.default =
        .ok segment ∧
      let actions := [Action.acquire, .requestDeletion, .acquire, .release, .proceed 0]
      let now := ((⟨fs, segment, []⟩ : Sharing).run actions).2
      now.segment.usage.deleted = true ∧ ∀ more, (now.run more).2.segment.usage.users = 0 := by
  obtain ⟨fs, hwrite⟩ := exists_write_two 0 .buffered 0.01 (List.replicate 32 0)
  obtain ⟨-, written⟩ := written_of_write rfl
    (fun p _ => FileSystem.vacant_empty p.location) hwrite
  have capacity : Config.default.cacheCapacity ≤ RecentKeys.maxCapacity := by decide
  obtain ⟨segment, opened, -⟩ := written.exists_open capacity
  refine ⟨fs, segment, opened, ?_⟩
  intro actions now
  obtain ⟨-, -, -, -, hclaimed, -, hunused, -, -, -⟩ :=
    deletion_of_shared fs _ _ _ _ segment opened actions
  have hevents : ((⟨fs, segment, []⟩ : Sharing).run actions).1 =
      [.acquired, .asked, .refused, .left, .claimed] := by
    have husage := usage_of_open opened
    obtain ⟨_, _, _, _, _, _, _, _, usage⟩ := segment
    subst husage
    rfl
  rw [hevents] at hclaimed
  have hdeleted := hclaimed.mp (by decide)
  exact ⟨hdeleted, hunused hdeleted⟩

end Segment

end SpatialSegment
