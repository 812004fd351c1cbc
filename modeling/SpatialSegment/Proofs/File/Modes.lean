import SpatialSegment.File.Calls
import SpatialSegment.Proofs.Checked.Guarded

/-!
# The mode of a file does not show

Two users open the same file, each in a mode of their own. What the checks say at the start depends
on the content alone. A range is read from both views or from none, as its bounds are looked at
first, and there is no range within a file that only one of the views can go to. So the two get the
same answers to the same calls, whatever the file holds and whatever ranges they ask for.
-/

namespace SpatialSegment

namespace GuardedFile

variable {fs : FileSystem} {p : Path} {bs : Bytes} {f g : GuardedFile} {v w : View}

/-- Two users of the file at a path that differ at most in their modes and in the views that belong
to these. A file that runs is open. -/
structure Twins (fs : FileSystem) (p : Path) (bs : Bytes) (f g : GuardedFile) : Prop where
  stores : fs.Stores p bs
  path : f.path = p
  path' : g.path = p
  format : f.format = g.format
  service : f.service = g.service
  views : Option.Rel (fun v w => v.Opens fs bs ∧ w.Opens fs bs) f.view g.view
  running : f.service.status = .running → f.view ≠ none

theorem read_twins (small : bs.length < View.signedLimit) (hpath : f.path = g.path)
    (hv : v.Opens fs bs) (hw : w.Opens fs bs) (offset len : Nat) :
    f.read fs v offset len = g.read fs w offset len := by
  by_cases hinside : offset + len ≤ bs.length
  · rw [read_of_inside hv small hinside, read_of_inside hw small hinside]
  · rw [read_of_outside hv (by omega), read_of_outside hw (by omega), hpath]

namespace Twins

theorem new (stores : fs.Stores p bs) (format : FileFormat) (mode mode' : ReadMode) :
    Twins fs p bs (GuardedFile.new format p mode) (GuardedFile.new format p mode') := by
  refine ⟨stores, rfl, rfl, rfl, rfl, .none, fun h => ?_⟩
  cases h

theorem views_cases (twins : Twins fs p bs f g) :
    (f.view = none ∧ g.view = none) ∨
      ∃ v w, f.view = some v ∧ g.view = some w ∧ v.Opens fs bs ∧ w.Opens fs bs := by
  have hviews := twins.views
  generalize f.view = a, g.view = b at hviews ⊢
  cases hviews with
  | none => exact .inl ⟨rfl, rfl⟩
  | some h => exact .inr ⟨_, _, rfl, rfl, h⟩

/-- A use is answered alike if the two views are. -/
theorem use_eq (twins : Twins fs p bs f g) {α : Type} {answer answer' : View → Result α}
    (h : ∀ v w : View, v.Opens fs bs → w.Opens fs bs → answer v = answer' w) :
    f.use answer = g.use answer' := by
  rw [GuardedFile.use_eq, GuardedFile.use_eq, twins.service]
  rcases twins.views_cases with ⟨hf, hg⟩ | ⟨v, w, hf, hg, hv, hw⟩
  · rw [hf, hg]
    rfl
  · rw [hf, hg, Option.elim, Option.elim, h v w hv hw]

theorem openLen_eq (twins : Twins fs p bs f g) : f.openLen = g.openLen := by
  rw [openLen, openLen]
  rcases twins.views_cases with ⟨hf, hg⟩ | ⟨v, w, hf, hg, hv, hw⟩
  · rw [hf, hg]
  · rw [hf, hg, Option.map_some, Option.map_some, hv.shows.length_eq, hw.shows.length_eq]

/-- A range is read if it lies within the file. -/
theorem read_eq (twins : Twins fs p bs f g) (small : bs.length < View.signedLimit)
    (offset len : Nat) :
    f.use (fun v => f.read fs v offset len) =
      if f.service.status = .running then
        if offset + len < Word.limit 8 ∧ offset + len ≤ bs.length then
          .ok (some ((bs.drop offset).take len))
        else .error (.formatIn p (.range len offset bs.length))
      else .ok none := by
  have hlimit : Word.limit 8 = 2 * View.signedLimit := rfl
  rw [GuardedFile.use_eq]
  by_cases hrunning : f.service.status = .running
  · rw [if_pos hrunning, if_pos hrunning]
    rcases twins.views_cases with ⟨hf, -⟩ | ⟨v, -, hf, -, hv, -⟩
    · exact absurd hf (twins.running hrunning)
    · rw [hf, Option.elim]
      by_cases hinside : offset + len ≤ bs.length
      · rw [read_of_inside hv small hinside, if_pos ⟨by omega, hinside⟩]
        rfl
      · rw [read_of_outside hv (by omega), if_neg fun h => hinside h.2, twins.path]
        rfl
  · rw [if_neg hrunning, if_neg hrunning]

/-! ### Steps -/

theorem withService (twins : Twins fs p bs f g) {service : Service}
    (h : service.status = .running → f.service.status = .running) :
    Twins fs p bs { f with service } { g with service } :=
  ⟨twins.stores, twins.path, twins.path', twins.format, rfl, twins.views,
    fun hrunning => twins.running (h hrunning)⟩

theorem init (twins : Twins fs p bs f g) :
    (f.init fs).1 = (g.init fs).1 ∧ Twins fs p bs (f.init fs).2 (g.init fs).2 := by
  obtain ⟨v, hv, hf⟩ := exists_openChecked twins.path twins.stores
  obtain ⟨w, hw, hg⟩ := exists_openChecked twins.path' twins.stores
  rw [← twins.format] at hg
  rw [GuardedFile.init, GuardedFile.init, ← twins.service, hf, hg]
  by_cases hstopped : f.service.status = .stopped
  · rw [Service.transition?, if_pos hstopped]
    cases checkContent f.format p bs with
    | error cause => exact ⟨rfl, twins.withService fun h => by cases h⟩
    | ok _ =>
      refine ⟨rfl, twins.stores, twins.path, twins.path', twins.format, rfl, .some ⟨hv, hw⟩, ?_⟩
      exact fun _ => Option.some_ne_none v
  · rw [Service.transition?, if_neg hstopped]
    refine ⟨?_, twins⟩
    dsimp only
    rw [twins.format, twins.path, twins.path']

theorem release (twins : Twins fs p bs f g) : Twins fs p bs f.release g.release := by
  rw [GuardedFile.release, GuardedFile.release, ← twins.service]
  exact twins.withService fun h => h

theorem stop (twins : Twins fs p bs f g) : Twins fs p bs f.stop g.stop := by
  rw [GuardedFile.stop, GuardedFile.stop, Service.transition?, Service.transition?, ← twins.service]
  by_cases hrunning : f.service.status = .running
  · rw [if_pos hrunning]
    exact twins.withService fun h => by cases h
  · rw [if_neg hrunning]
    exact twins

theorem close (twins : Twins fs p bs f g) : Twins fs p bs f.close g.close := by
  rw [GuardedFile.close, GuardedFile.close, ← twins.service]
  exact ⟨twins.stores, twins.path, twins.path', twins.format, rfl, .none, fun h => by cases h⟩

end Twins

end GuardedFile

namespace SharedFile

/-- The files differ at most in their modes, and the same call waits. -/
structure Twins (fs : FileSystem) (p : Path) (bs : Bytes) (s t : SharedFile) : Prop where
  file : GuardedFile.Twins fs p bs s.file t.file
  waiting : s.waiting = t.waiting

variable {fs : FileSystem} {p : Path} {bs : Bytes} {s t : SharedFile}

theorem Twins.acquire (twins : Twins fs p bs s t) :
    (s.call fs .acquire).1 = (t.call fs .acquire).1 ∧
      Twins fs p bs (s.call fs .acquire).2 (t.call fs .acquire).2 := by
  rw [call, call, acquire?, acquire?, GuardedFile.acquire?, GuardedFile.acquire?,
    ← twins.file.service, Service.acquire?]
  by_cases hrunning : s.file.service.status = .running
  · rw [if_pos hrunning]
    exact ⟨rfl, twins.file.withService fun _ => hrunning, twins.waiting⟩
  · rw [if_neg hrunning]
    exact ⟨rfl, twins⟩

theorem Twins.shutdown (twins : Twins fs p bs s t) :
    Twins fs p bs s.beginShutdown t.beginShutdown := by
  rw [beginShutdown, beginShutdown, ← twins.file.service]
  by_cases hrunning : s.file.service.isRunning = true
  · rw [if_pos hrunning, if_pos hrunning]
    exact ⟨twins.file.stop, rfl⟩
  · rw [if_neg hrunning, if_neg hrunning]
    exact twins

theorem Twins.finish (twins : Twins fs p bs s t) :
    Twins fs p bs (s.finish fs).2 (t.finish fs).2 := by
  rw [SharedFile.finish, SharedFile.finish, ← twins.waiting, ← twins.file.service]
  cases hwaiting : s.waiting with
  | none => exact twins
  | some waiting =>
    by_cases hused : s.file.service.isUsed = true
    · simp only [if_pos hused]
      exact twins
    · simp only [if_neg hused]
      cases waiting <;> exact ⟨twins.file.close, rfl⟩

/-- Every call is answered alike. -/
theorem alike_twins (fs : FileSystem) (p : Path) (small : bs.length < View.signedLimit) :
    Calls.Alike (Twins fs p bs) (call fs) (call fs) := by
  intro s t c twins
  cases c with
  | init =>
    obtain ⟨hanswer, hfile⟩ := twins.file.init
    exact ⟨congrArg Answer.started hanswer, hfile, twins.waiting⟩
  | acquire => exact twins.acquire
  | release => exact ⟨rfl, twins.file.release, twins.waiting⟩
  | shutdown => exact ⟨rfl, twins.shutdown⟩
  | finish => exact ⟨rfl, twins.finish⟩
  | read offset len =>
    have huse := twins.file.use_eq fun v w hv hw =>
      GuardedFile.read_twins small (twins.file.path.trans twins.file.path'.symm) hv hw offset len
    exact ⟨congrArg Answer.bytes huse, twins⟩
  | length => exact ⟨congrArg Answer.length twins.file.openLen_eq, twins⟩
  | service => exact ⟨congrArg Answer.service twins.file.service, twins⟩

end SharedFile

end SpatialSegment
