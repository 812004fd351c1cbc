import SpatialSegment.Proofs.Checked.Steps
import SpatialSegment.Proofs.File.Guarded

/-!
# A file that runs is read without a crash

A file that has started answers every range with its bytes or with a fault of the format, as long as
it does not change: the file system does not refuse a range that lies within the file, and a range
that ends beyond the words is told from one that lies within.
-/

namespace SpatialSegment

open Machine

namespace GuardedFile

/-- The file has started and holds the bytes while it is read. Its users are counted by a word,
which has room for one more, and it is no longer than a position in a file can be. -/
structure Runs (fs : FileSystem) (f : GuardedFile) (bs : Bytes) : Prop where
  running : f.service.status = .running
  room : f.service.usage + 1 < Word.limit 8
  view : ∃ v, f.view = some v ∧ v.Opens fs bs
  length_lt : bs.length < View.signedLimit

theorem Runs.shows {fs : FileSystem} {f : GuardedFile} {bs : Bytes} (runs : f.Runs fs bs) :
    f.Shows fs bs := by
  obtain ⟨v, hview, opens⟩ := runs.view
  exact ⟨runs.running, v, hview, opens.shows⟩

/-- A file that has started and has been a file of bytes runs on them. -/
theorem runs_of_init {fs : FileSystem} {f : GuardedFile} {bs : Bytes} {format : FileFormat}
    {p : Path} {mode : ReadMode} (stores : fs.Stores p bs) (small : bs.length < View.signedLimit)
    (h : (GuardedFile.new format p mode).init fs = (.ok (), f)) : f.Runs fs bs := by
  obtain ⟨v, opens, hinit⟩ := init_new_eq_ok_iff stores format mode
  obtain ⟨-, rfl⟩ := (hinit f).mp h
  have room : 0 + 1 < Word.limit 8 := by decide
  exact ⟨rfl, room, ⟨v, rfl, opens⟩, small⟩

/-- A range of the file. There is no buffer for a range whose length is beyond all files. -/
def checkedRead (fs : FileSystem) (f : GuardedFile) (view : View) (offset len : Nat) :
    Checked SegmentError Bytes :=
  match sum? offset len with
  | some stop =>
    if stop ≤ view.length then
      match view.slice? fs offset len with
      | some found => Checked.of (found.mapError (.fileIo f.path offset))
      | none => liftM (throw .panic : Machine Bytes)
    else throw (.formatIn f.path (.range len offset view.length))
  | none => throw (.formatIn f.path (.range len offset view.length))

/-- A use of the view, which counts one user more. -/
def checkedUse {α : Type} (f : GuardedFile) (use : View → Checked SegmentError α) :
    Checked SegmentError (Option α) :=
  if f.service.status = .running then do
    let _ ← add f.service.usage 1
    match f.view with
    | some view => return some (← use view)
    | none => return none
  else return none

variable {fs : FileSystem} {f : GuardedFile} {v : View} {bs : Bytes} {offset len : Nat}

theorem read_of_inside (opens : v.Opens fs bs) (small : bs.length < View.signedLimit)
    (inside : offset + len ≤ bs.length) :
    f.read fs v offset len = .ok ((bs.drop offset).take len) := by
  have shows := opens.shows
  rw [read, shows.length_eq, if_pos inside, shows.slice_eq offset len (by omega) inside]
  rfl

theorem read_of_outside (opens : v.Opens fs bs) (outside : bs.length < offset + len) :
    f.read fs v offset len = .error (.formatIn f.path (.range len offset bs.length)) := by
  rw [read, opens.shows.length_eq, if_neg (Nat.not_le.mpr outside)]

/-- What is read has the length that was asked for and lies within the file. -/
theorem length_of_read (opens : v.Opens fs bs) (small : bs.length < View.signedLimit)
    {out : Bytes} (h : f.read fs v offset len = .ok out) :
    out.length = len ∧ offset + len ≤ bs.length := by
  by_cases hinside : offset + len ≤ bs.length
  · rw [read_of_inside opens small hinside] at h
    cases h
    refine ⟨?_, hinside⟩
    rw [List.length_take, List.length_drop]
    omega
  · rw [read_of_outside opens (by omega)] at h
    cases h

theorem endsAs_read (opens : v.Opens fs bs) (small : bs.length < View.signedLimit)
    (offset len : Nat) : EndsAs (f.checkedRead fs v offset len) (f.read fs v offset len) := by
  have hlimit : Word.limit 8 = 2 * View.signedLimit := rfl
  have hlength := opens.shows.length_eq
  rw [checkedRead]
  by_cases hinside : offset + len ≤ bs.length
  · have hslice : v.slice? fs offset len = some (.ok ((bs.drop offset).take len)) := by
      rw [View.slice?, if_pos (.inr (by omega)), opens.shows.slice_eq offset len (by omega) hinside]
    rw [read_of_inside opens small hinside, sum?, if_pos (by omega)]
    dsimp only
    rw [hlength, if_pos hinside, hslice]
    exact .ok _
  · rw [read_of_outside opens (by omega), hlength]
    by_cases hword : offset + len < Word.limit 8
    · rw [sum?, if_pos hword]
      dsimp only
      rw [if_neg hinside]
      exact .refuse _ _
    · rw [sum?, if_neg hword]
      exact .refuse _ _

/-- A use of a file that runs ends as what is done with its view. -/
theorem Runs.endsAs_use {α : Type} (runs : f.Runs fs bs) {checked : View → Checked SegmentError α}
    {plain : View → Result α} (h : ∀ v : View, v.Opens fs bs → EndsAs (checked v) (plain v)) :
    EndsAs (f.checkedUse checked) (f.use plain) := by
  obtain ⟨v, hview, opens⟩ := runs.view
  rw [checkedUse, use_eq, if_pos runs.running, if_pos runs.running, add_eq runs.room,
    Checked.lift_bind, hview]
  exact (h v opens).map some

end GuardedFile

end SpatialSegment
