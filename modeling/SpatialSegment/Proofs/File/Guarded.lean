import SpatialSegment.File.Guarded
import SpatialSegment.Proofs.File.System
import SpatialSegment.Proofs.Word

/-!
# Reading an open file

A view shows bytes when every range of them that it can go to is read as it is. Opening a file that
holds the bytes gives such a view in either mode, and a guarded file that starts on a whole file of
its format answers every use with what the view gives.
-/

namespace SpatialSegment

namespace View

/-- The bytes are what the view reads, as far as it can go. -/
structure Shows (fs : FileSystem) (v : View) (bs : Bytes) : Prop where
  length_eq : v.length = bs.length
  slice_eq : ∀ offset len, offset < signedLimit → offset + len ≤ bs.length →
    v.slice fs offset len = .ok ((bs.drop offset).take len)

variable {fs : FileSystem} {v : View} {p : Path} {bs : Bytes}

theorem shows_mapped (fs : FileSystem) (bs : Bytes) : (View.mapped bs).Shows fs bs := by
  refine ⟨rfl, ?_⟩
  intro offset len _ hlen
  have hslice : bs.slice? offset len = some ((bs.drop offset).take len) :=
    Bytes.slice?_eq_some_iff.mpr ⟨hlen, rfl⟩
  rw [View.slice, hslice]

theorem shows_buffered {id : Nat} (holds : fs.content id = bs) :
    (View.buffered id bs.length).Shows fs bs := by
  refine ⟨rfl, ?_⟩
  intro offset len hoffset hlen
  have hfull : ((bs.drop offset).take len).length = len := by
    rw [List.length_take, List.length_drop]
    omega
  rw [View.slice, if_neg (by omega), holds]
  simp only [if_pos hfull]

/-- The view, in either mode, of an open file that holds the bytes. -/
inductive Opens (fs : FileSystem) (bs : Bytes) : View → Prop
  | mapped : Opens fs bs (.mapped bs)
  | buffered {id : Nat} (holds : fs.content id = bs) : Opens fs bs (.buffered id bs.length)

theorem Opens.shows (opens : v.Opens fs bs) : v.Shows fs bs := by
  cases opens with
  | mapped => exact shows_mapped fs bs
  | buffered holds => exact shows_buffered holds

theorem exists_open (stores : fs.Stores p bs) (mode : ReadMode) :
    ∃ v, View.open? fs p mode = .ok v ∧ v.Opens fs bs := by
  obtain ⟨id, hfind, rfl⟩ := stores.find
  cases mode with
  | mapped =>
    refine ⟨.mapped (fs.content id), ?_, .mapped⟩
    rw [View.open?, hfind, ok_bind]
    rfl
  | buffered =>
    refine ⟨.buffered id (fs.content id).length, ?_, .buffered rfl⟩
    rw [View.open?, hfind, ok_bind]
    rfl

end View

namespace GuardedFile

/-- The file is open and takes users, and its view shows the bytes. -/
structure Shows (fs : FileSystem) (f : GuardedFile) (bs : Bytes) : Prop where
  running : f.service.status = .running
  view : ∃ v, f.view = some v ∧ v.Shows fs bs

variable {fs : FileSystem} {f : GuardedFile} {p : Path} {bs : Bytes}

/-- A use looks at the stage of the service and at the view. -/
theorem use_eq {α : Type} (answer : View → Result α) :
    f.use answer = if f.service.status = .running
      then f.view.elim (.ok none) fun v => (answer v).map some else .ok none := by
  rw [use, Service.acquire?]
  by_cases hrunning : f.service.status = .running
  · rw [if_pos hrunning, if_pos hrunning]
    cases f.view <;> rfl
  · rw [if_neg hrunning, if_neg hrunning]

/-- A use sees a view of the bytes. -/
theorem Shows.exists_use (shows : f.Shows fs bs) :
    ∃ v : View, v.Shows fs bs ∧ ∀ {α : Type} (answer : View → Result α),
      f.use answer = (answer v).map some := by
  obtain ⟨v, hview, hv⟩ := shows.view
  refine ⟨v, hv, fun answer => ?_⟩
  rw [use_eq, if_pos shows.running, hview]
  rfl

/-- A use answers with what every view of the bytes gives. -/
theorem Shows.use_eq (shows : f.Shows fs bs) {α : Type} {answer : View → Result α}
    (result : Result α) (h : ∀ v : View, v.Shows fs bs → answer v = result) :
    f.use answer = result.map some := by
  obtain ⟨v, hv, uses⟩ := shows.exists_use
  rw [uses, h v hv]

/-- The length of the body is that of the bytes behind the preamble. -/
theorem Shows.bodyLen_eq (shows : f.Shows fs bs) :
    f.bodyLen = bs.length - FileFormat.bodyStart := by
  obtain ⟨v, hview, hv⟩ := shows.view
  rw [bodyLen, openLen, hview, ← hv.length_eq]
  rfl

/-- What stands between other bytes is read as it is. -/
theorem read_eq {v : View} {before middle after : Bytes}
    (shows : v.Shows fs (before ++ middle ++ after)) (f : GuardedFile)
    (hbefore : before.length < View.signedLimit) :
    f.read fs v before.length middle.length = .ok middle := by
  have hlen : before.length + middle.length ≤ (before ++ middle ++ after).length := by
    rw [List.length_append, List.length_append]
    omega
  rw [read, if_pos (shows.length_eq ▸ hlen), shows.slice_eq _ _ hbefore hlen, List.append_assoc,
    List.drop_left, List.take_left]
  rfl

/-! ### Starting -/

/-- What the checks at the start say of a content. -/
def checkContent (format : FileFormat) (path : Path) (bs : Bytes) : Result Unit := do
  if bs.length < FileFormat.bodyStart then throw (.formatIn path (.shortFile bs.length format))
  if bs.take FileFormat.bodyStart ≠ format.magic then throw (.formatIn path (.preamble format))
  match format.recordLen with
  | none => return ()
  | some recordLen =>
    let body := bs.length - FileFormat.bodyStart
    if body % recordLen ≠ 0 then throw (.formatIn path (.body body recordLen))

theorem exists_openChecked (hpath : f.path = p) (stores : fs.Stores p bs) :
    ∃ v, v.Opens fs bs ∧ f.openChecked fs = (checkContent f.format p bs).map fun _ => v := by
  subst hpath
  obtain ⟨v, hopen, opens⟩ := View.exists_open stores f.mode
  refine ⟨v, opens, ?_⟩
  rw [openChecked, checkContent]
  simp only [stores.lengthAt, hopen]
  by_cases hshort : bs.length < FileFormat.bodyStart
  · rw [if_pos hshort, if_pos hshort]
    rfl
  · have hslice := opens.shows.slice_eq 0 FileFormat.bodyStart (by decide) (by omega)
    rw [List.drop_zero] at hslice
    rw [if_neg hshort, if_neg hshort, hslice]
    by_cases hmagic : bs.take FileFormat.bodyStart ≠ f.format.magic
    · simp only [if_pos hmagic]
      rfl
    · simp only [if_neg hmagic]
      cases f.format.recordLen with
      | none => rfl
      | some recordLen =>
        by_cases hbody : (bs.length - FileFormat.bodyStart) % recordLen ≠ 0
        · simp only [if_pos hbody]
          rfl
        · simp only [if_neg hbody]
          rfl

theorem checkContent_eq_ok {format : FileFormat} {body : Bytes} (path : Path)
    (whole : ∀ n, format.recordLen = some n → body.length % n = 0) :
    checkContent format path (format.magic ++ body) = .ok () := by
  have hlength : (format.magic ++ body).length = FileFormat.bodyStart + body.length := by
    rw [List.length_append, FileFormat.length_magic]
  have hmagic : (format.magic ++ body).take FileFormat.bodyStart = format.magic := by
    rw [← FileFormat.length_magic format, List.take_left]
  rw [checkContent, hlength, hmagic, if_neg (by omega), if_neg (not_not_intro rfl)]
  cases hrecord : format.recordLen with
  | none => rfl
  | some n =>
    dsimp only
    rw [Nat.add_sub_cancel_left, if_neg (not_not_intro (whole n hrecord))]
    rfl

/-- A new file starts if its content passes the checks, and runs with a view of it then. -/
theorem init_new_eq_ok_iff (stores : fs.Stores p bs) (format : FileFormat) (mode : ReadMode) :
    ∃ v, v.Opens fs bs ∧ ∀ f, (GuardedFile.new format p mode).init fs = (.ok (), f) ↔
      checkContent format p bs = .ok () ∧ f = ⟨format, p, mode, ⟨.running, 0, none⟩, some v⟩ := by
  obtain ⟨v, opens, hchecked⟩ :=
    exists_openChecked (f := GuardedFile.new format p mode) rfl stores
  have htransition : (GuardedFile.new format p mode).service.transition? .stopped .starting =
      some ⟨.starting, 0, none⟩ := rfl
  refine ⟨v, opens, fun f => ?_⟩
  rw [init, htransition, hchecked, GuardedFile.new]
  cases checkContent format p bs with
  | error cause =>
    constructor
    · intro h
      cases h
    · rintro ⟨h, -⟩
      cases h
  | ok _ =>
    constructor
    · intro h
      cases h
      exact ⟨rfl, rfl⟩
    · rintro ⟨-, rfl⟩
      rfl

/-- A file of its format starts and shows what it holds. -/
theorem exists_init {format : FileFormat} {body : Bytes}
    (stores : fs.Stores p (format.magic ++ body))
    (whole : ∀ n, format.recordLen = some n → body.length % n = 0) (mode : ReadMode) :
    ∃ f, (GuardedFile.new format p mode).init fs = (.ok (), f) ∧
      f.Shows fs (format.magic ++ body) ∧ f.path = p := by
  obtain ⟨v, opens, hinit⟩ := init_new_eq_ok_iff stores format mode
  exact ⟨_, (hinit _).mpr ⟨checkContent_eq_ok p whole, rfl⟩, ⟨rfl, v, rfl, opens.shows⟩, rfl⟩

end GuardedFile

end SpatialSegment
