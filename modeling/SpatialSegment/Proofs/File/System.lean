import Mathlib.Data.List.GetD
import SpatialSegment.Proofs.File.Path
import SpatialSegment.Proofs.Results

/-!
# Files that are written and files that stay

Following a path finds directories on the way, and what is there already is still found when more is
added. So a file that has been written at a location where no file was is found with its content,
also after other files have been created, and making directories creates no file.
-/

namespace SpatialSegment

namespace FileSystem

variable {fs fs' : FileSystem} {l : Location} {p : Path} {bs : Bytes}

/-! ## Following paths -/

theorem walk_eq {start : Location} {steps : List PathStep}
    (h : fs.walk start steps = .ok l) : l = start.steps steps := by
  induction steps generalizing l with
  | nil =>
    cases h
    rfl
  | cons step steps ih =>
    rw [walk] at h
    obtain ⟨directory, hwalk, h⟩ := bind_eq_ok.mp h
    obtain rfl := ih hwalk
    cases step with
    | stay =>
      cases h
      rfl
    | up =>
      cases h
      rfl
    | into name =>
      obtain ⟨place, -, h⟩ := bind_eq_ok.mp h
      cases place with
      | none => cases h
      | some place =>
        cases place with
        | directory =>
          cases h
          rfl
        | file id => cases h

theorem entry_eq_ok_iff {directory : Location} {name : String} {place : Option Place} :
    fs.entry directory name = .ok place ↔
      name.utf8ByteSize ≤ Route.maxNameLen ∧ fs.placeAt (directory.below name) = place := by
  rw [entry]
  by_cases h : Route.maxNameLen < name.utf8ByteSize
  · rw [if_pos h]
    constructor
    · intro heq
      cases heq
    · rintro ⟨hle, -⟩
      omega
  · rw [if_neg h, Except.ok.injEq]
    exact ⟨fun heq => ⟨by omega, heq⟩, fun heq => heq.2⟩

/-- What is somewhere in the first file system is there in the second one too. -/
def Keeps (fs fs' : FileSystem) : Prop :=
  ∀ l place, fs.placeAt l = some place → fs'.placeAt l = some place

/-- Only directories are on the way. -/
theorem walk_of_directories
    (kept : ∀ l, fs.placeAt l = some .directory → fs'.placeAt l = some .directory)
    {start : Location} {steps : List PathStep} (h : fs.walk start steps = .ok l) :
    fs'.walk start steps = .ok l := by
  induction steps generalizing l with
  | nil => exact h
  | cons step steps ih =>
    rw [FileSystem.walk] at h ⊢
    obtain ⟨directory, hwalk, h⟩ := bind_eq_ok.mp h
    rw [ih hwalk, ok_bind]
    cases step with
    | stay => exact h
    | up => exact h
    | into name =>
      obtain ⟨place, hentry, h⟩ := bind_eq_ok.mp h
      obtain ⟨hname, hplace⟩ := entry_eq_ok_iff.mp hentry
      obtain _ | _ | id := place
      · cases h
      · have hentry' := entry_eq_ok_iff.mpr ⟨hname, kept _ hplace⟩
        simp only [hentry', ok_bind]
        exact h
      · cases h

theorem Keeps.walk (keeps : Keeps fs fs') {start : Location} {steps : List PathStep}
    (h : fs.walk start steps = .ok l) : fs'.walk start steps = .ok l :=
  walk_of_directories (fun l => keeps l _) h

/-- The path ends in a name, and all directories on the way to its location are there. -/
def Leads (fs : FileSystem) (p : Path) (l : Location) : Prop :=
  ∃ start name above directory, Route.ofPath p = .ok ⟨start, .into name :: above, false⟩ ∧
    fs.walk start above = .ok directory ∧ name.utf8ByteSize ≤ Route.maxNameLen ∧
    l = directory.below name

theorem ofPath_eq_ok {r : Route} (h : Route.ofPath p = .ok r) :
    r = ⟨⟨p.startsAtRoot, []⟩, p.steps.reverse, p.endsInSlash⟩ := by
  unfold Route.ofPath at h
  split at h
  · cases h
  · split at h
    · cases h
    · split at h
      · cases h
      · exact (Except.ok.inj h).symm

theorem below_eq_location {r : Route} (hroute : Route.ofPath p = .ok r) {name : String}
    {above : List PathStep} (hsteps : r.steps = .into name :: above) {directory : Location}
    (hwalk : fs.walk r.start above = .ok directory) : directory.below name = p.location := by
  obtain rfl := ofPath_eq_ok hroute
  have hreverse : p.steps.reverse = .into name :: above := hsteps
  rw [Path.location, hreverse, walk_eq hwalk]
  rfl

theorem Leads.eq_location (leads : Leads fs p l) : l = p.location := by
  obtain ⟨start, name, above, directory, hroute, hwalk, -, rfl⟩ := leads
  exact below_eq_location hroute rfl hwalk

theorem Leads.keeps (leads : Leads fs p l) (keeps : Keeps fs fs') : Leads fs' p l := by
  obtain ⟨start, name, above, directory, hroute, hwalk, hname, hl⟩ := leads
  exact ⟨start, name, above, directory, hroute, keeps.walk hwalk, hname, hl⟩

theorem Leads.find {place : Place} (leads : Leads fs p l) (h : fs.placeAt l = some place) :
    fs.find p = .ok place := by
  obtain ⟨start, name, above, directory, hroute, hwalk, hname, rfl⟩ := leads
  have hentry := entry_eq_ok_iff.mpr ⟨hname, h⟩
  rw [FileSystem.find, locate, hroute, ok_bind, follow]
  simp only [hwalk, ok_bind, hentry]
  simp
  rfl

theorem Leads.find_none (leads : Leads fs p l) (h : fs.placeAt l = none) :
    fs.find p = .error .notFound := by
  obtain ⟨start, name, above, directory, hroute, hwalk, hname, rfl⟩ := leads
  have hentry := entry_eq_ok_iff.mpr ⟨hname, h⟩
  rw [FileSystem.find, locate, hroute, ok_bind, follow]
  simp only [hwalk, ok_bind, hentry]
  rfl

theorem Leads.names_ne_nil (leads : Leads fs p l) : l.names ≠ [] := by
  obtain ⟨_, name, _, directory, -, -, -, rfl⟩ := leads
  exact List.append_ne_nil_of_right_ne_nil _ (List.cons_ne_nil _ _)

theorem of_locate_file {id : Nat} (h : fs.locate p = .ok (l, .file id)) :
    l = p.location ∧ fs.placeAt l = some (.file id) := by
  obtain ⟨r, hroute, h⟩ := bind_eq_ok.mp h
  unfold follow at h
  split at h
  · rename_i name above hsteps
    obtain ⟨directory, hwalk, h⟩ := bind_eq_ok.mp h
    obtain ⟨place, hentry, h⟩ := bind_eq_ok.mp h
    cases place with
    | none => cases h
    | some place =>
      by_cases hwants : r.wantsDirectory ∧ place ≠ .directory
      · simp only [if_pos hwants] at h
        cases h
      · simp only [if_neg hwants] at h
        cases h
        exact ⟨below_eq_location hroute hsteps hwalk, (entry_eq_ok_iff.mp hentry).2⟩
  · obtain ⟨directory, -, h⟩ := bind_eq_ok.mp h
    cases h

/-- Only at the location of a path is a file found. -/
theorem placeAt_of_find {id : Nat} (h : fs.find p = .ok (.file id)) :
    fs.placeAt p.location = some (.file id) := by
  unfold find at h
  cases hlocate : fs.locate p with
  | error cause =>
    rw [hlocate] at h
    cases h
  | ok found =>
    obtain ⟨l, place⟩ := found
    rw [hlocate] at h
    cases h
    obtain ⟨rfl, hplace⟩ := of_locate_file hlocate
    exact hplace

/-! ## New files -/

/-- The file is at the location of the path and has the content. -/
def Stores (fs : FileSystem) (p : Path) (bs : Bytes) : Prop :=
  ∃ l id, Leads fs p l ∧ fs.placeAt l = some (.file id) ∧ id < fs.contents.length ∧
    fs.content id = bs

/-- There is no file at the location. -/
def Vacant (fs : FileSystem) (l : Location) : Prop :=
  ∀ id, fs.placeAt l ≠ some (.file id)

theorem vacant_empty (l : Location) : FileSystem.empty.Vacant l := by
  intro id hid
  unfold placeAt at hid
  split at hid <;> cases hid

theorem placeAt_add (places : List (Location × Place)) (contents contents' : List Bytes)
    (l l' : Location) (place : Place) :
    (FileSystem.mk ((l, place) :: places) contents').placeAt l' =
      if l'.names = [] then some .directory
      else if l' = l then some place else (FileSystem.mk places contents).placeAt l' := by
  unfold placeAt
  by_cases hroot : l'.names = []
  · rw [if_pos hroot, if_pos hroot]
  · rw [if_neg hroot, if_neg hroot, if_neg hroot, List.lookup_cons]
    by_cases heq : l' = l
    · simp [heq]
    · rw [if_neg heq, beq_false_of_ne heq]

theorem placeAt_create (l l' : Location) (bs : Bytes) :
    (fs.create l bs).placeAt l' =
      if l'.names = [] then some .directory
      else if l' = l then some (.file fs.contents.length) else fs.placeAt l' :=
  placeAt_add fs.places fs.contents _ l l' _

theorem placeAt_create_of_ne {l' : Location} (h : l' ≠ l) :
    (fs.create l bs).placeAt l' = fs.placeAt l' := by
  rw [placeAt_create, if_neg h]
  by_cases hroot : l'.names = []
  · rw [if_pos hroot, placeAt, if_pos hroot]
  · rw [if_neg hroot]

theorem keeps_create (h : fs.placeAt l = none) : Keeps fs (fs.create l bs) := by
  intro l' place hplace
  have hne : l' ≠ l := by
    rintro rfl
    rw [h] at hplace
    cases hplace
  rw [placeAt_create_of_ne hne, hplace]

theorem Vacant.create (vacant : fs.Vacant l) {l' : Location} (h : l ≠ l') :
    (fs.create l' bs).Vacant l := by
  intro id hid
  rw [placeAt_create_of_ne h] at hid
  exact vacant id hid

theorem content_create {id : Nat} (h : id < fs.contents.length) :
    (fs.create l bs).content id = fs.content id := by
  rw [content, content, FileSystem.create, List.getD_append _ _ _ _ h]

/-- A file stays as it is when another one is created. -/
theorem Stores.create (stores : Stores fs p bs) {l' : Location} (h : fs.placeAt l' = none)
    (bs' : Bytes) : Stores (fs.create l' bs') p bs := by
  obtain ⟨l, id, hleads, hplace, hid, hcontent⟩ := stores
  have keeps : Keeps fs (fs.create l' bs') := keeps_create h
  refine ⟨l, id, hleads.keeps keeps, keeps l _ hplace, ?_, ?_⟩
  · simp only [FileSystem.create, List.length_append]
    omega
  · rw [content_create hid, hcontent]

/-- What has been written at a path is at its location. -/
theorem exists_leads_of_write (h : fs.write p bs = .ok fs') :
    ∃ l, Leads fs p l ∧ (fs.placeAt l = none ∧ fs' = fs.create l bs ∨
      ∃ id, fs.placeAt l = some (.file id) ∧ fs' = fs.setContent id bs) := by
  unfold write at h
  obtain ⟨r, hroute, h⟩ := bind_eq_ok.mp h
  split at h
  · rename_i name above hsteps
    obtain ⟨directory, hwalk, h⟩ := bind_eq_ok.mp h
    by_cases hwants : r.wantsDirectory = true
    · rw [if_pos hwants] at h
      cases h
    · rw [if_neg hwants] at h
      obtain ⟨place, hentry, h⟩ := bind_eq_ok.mp h
      obtain ⟨hname, hplace⟩ := entry_eq_ok_iff.mp hentry
      have hleads : Leads fs p (directory.below name) := by
        refine ⟨r.start, name, above, directory, ?_, hwalk, hname, rfl⟩
        have hfile : r.wantsDirectory = false := by simpa using hwants
        rw [hroute, ← hsteps, ← hfile]
      cases place with
      | none =>
        cases h
        exact ⟨_, hleads, Or.inl ⟨hplace, rfl⟩⟩
      | some place =>
        cases place with
        | directory => cases h
        | file id =>
          cases h
          exact ⟨_, hleads, Or.inr ⟨id, hplace, rfl⟩⟩
  · obtain ⟨directory, -, h⟩ := bind_eq_ok.mp h
    cases h

/-- Where no file is, writing creates one. -/
theorem Vacant.write (vacant : fs.Vacant p.location) (h : fs.write p bs = .ok fs') :
    Stores fs' p bs ∧ fs.placeAt p.location = none ∧ fs' = fs.create p.location bs := by
  obtain ⟨l, hleads, hnew | ⟨id, hplace, -⟩⟩ := exists_leads_of_write h
  · obtain ⟨hplace, rfl⟩ := hnew
    obtain rfl := hleads.eq_location
    refine ⟨⟨_, fs.contents.length, hleads.keeps (keeps_create hplace), ?_, ?_, ?_⟩, hplace, rfl⟩
    · rw [placeAt_create, if_neg hleads.names_ne_nil, if_pos rfl]
    · simp only [FileSystem.create, List.length_append, List.length_singleton]
      omega
    · rw [content, FileSystem.create, List.getD_append_right _ _ _ _ (Nat.le_refl _)]
      simp
  · obtain rfl := hleads.eq_location
    exact absurd hplace (vacant id)

/-- There is nothing at the location of the path, and its directory is there. -/
def Room (fs : FileSystem) (p : Path) : Prop :=
  Leads fs p p.location ∧ fs.placeAt p.location = none

theorem Room.write (room : fs.Room p) (bs : Bytes) :
    fs.write p bs = .ok (fs.create p.location bs) := by
  obtain ⟨⟨start, name, above, directory, hroute, hwalk, hname, hl⟩, hnone⟩ := room
  rw [hl] at hnone ⊢
  have hentry := entry_eq_ok_iff.mpr ⟨hname, hnone⟩
  rw [FileSystem.write, hroute, ok_bind]
  simp only [hwalk, ok_bind, hentry]
  rfl

/-- Where no file is but one can be written there is room. -/
theorem Vacant.room (vacant : fs.Vacant p.location) (h : fs.write p bs = .ok fs') : fs.Room p := by
  obtain ⟨l, hleads, hnew⟩ := exists_leads_of_write h
  obtain rfl := hleads.eq_location
  rcases hnew with ⟨hnone, -⟩ | ⟨id, hplace, -⟩
  · exact ⟨hleads, hnone⟩
  · exact absurd hplace (vacant id)

theorem Vacant.room_of_isOk (vacant : fs.Vacant p.location) (h : (fs.write p bs).isOk = true) :
    fs.Room p := by
  cases hwrite : fs.write p bs with
  | error cause =>
    rw [hwrite] at h
    cases h
  | ok fs' => exact vacant.room hwrite

theorem Room.create (room : fs.Room p) (h : fs.placeAt l = none) (hne : p.location ≠ l)
    (bs : Bytes) : (fs.create l bs).Room p := by
  refine ⟨room.1.keeps (keeps_create h), ?_⟩
  rw [placeAt_create_of_ne hne]
  exact room.2

/-- Where there is room for several files, there is still room for the others after one. -/
theorem Room.create_all {ps : List Path} (room : fs.Room p) (rooms : ∀ q ∈ ps, fs.Room q)
    (apart : p.location ∉ ps.map Path.location) (bs : Bytes) :
    ∀ q ∈ ps, (fs.create p.location bs).Room q := by
  intro q hq
  refine (rooms q hq).create room.2 ?_ bs
  intro heq
  exact apart (List.mem_map.mpr ⟨q, hq, heq⟩)

/-- Files have come at the paths, and whatever else is anywhere was there before. -/
structure Fills (fs : FileSystem) (ps : List Path) (fs' : FileSystem) : Prop where
  new : ∀ p ∈ ps, ∃ id, fs'.placeAt p.location = some (.file id)
  old : ∀ l, l ∉ ps.map Path.location → fs'.placeAt l = fs.placeAt l
  keeps : Keeps fs fs'

theorem Fills.nil (fs : FileSystem) : Fills fs [] fs :=
  ⟨by simp, fun _ _ => rfl, fun _ _ h => h⟩

theorem Fills.create {ps : List Path} (fills : Fills fs ps fs') (room : fs'.Room p) (bs : Bytes) :
    Fills fs (ps ++ [p]) (fs'.create p.location bs) := by
  obtain ⟨leads, hnone⟩ := room
  have keeps : Keeps fs' (fs'.create p.location bs) := keeps_create hnone
  refine ⟨fun q hq => ?_, fun l hl => ?_, fun l place hplace => keeps l _ (fills.keeps l _ hplace)⟩
  · rcases List.mem_append.mp hq with hq | hq
    · obtain ⟨id, hid⟩ := fills.new q hq
      exact ⟨id, keeps _ _ hid⟩
    · obtain rfl := List.mem_singleton.mp hq
      refine ⟨fs'.contents.length, ?_⟩
      rw [placeAt_create, if_neg leads.names_ne_nil, if_pos rfl]
  · simp only [List.map_append, List.map_cons, List.map_nil, List.mem_append, List.mem_singleton,
      not_or] at hl
    rw [placeAt_create_of_ne hl.2, fills.old l hl.1]

/-- Where there was room there still is, away from the files that have come. -/
theorem Fills.room {ps : List Path} (fills : Fills fs ps fs') (room : fs.Room p)
    (apart : p.location ∉ ps.map Path.location) : fs'.Room p :=
  ⟨room.1.keeps fills.keeps, (fills.old _ apart).trans room.2⟩

/-- Where there was room something is found exactly if a file has come. -/
theorem Fills.isPresent_iff {ps : List Path} (fills : Fills fs ps fs') (room : fs.Room p)
    (apart : p.location ∈ ps.map Path.location → p ∈ ps) : fs'.isPresent p = true ↔ p ∈ ps := by
  obtain ⟨leads, hnone⟩ := room
  have leads' := leads.keeps fills.keeps
  constructor
  · intro hpresent
    by_contra hmem
    have hplace := (fills.old p.location (mt apart hmem)).trans hnone
    rw [isPresent, leads'.find_none hplace] at hpresent
    cases hpresent
  · intro hmem
    obtain ⟨id, hid⟩ := fills.new p hmem
    rw [isPresent, leads'.find hid]
    rfl

/-- Files stay as they are, and only at the location a file may come. -/
structure Spares (l : Location) (fs fs' : FileSystem) : Prop where
  stores : ∀ {q : Path} {bs : Bytes}, fs.Stores q bs → fs'.Stores q bs
  vacant : ∀ {l' : Location}, fs.Vacant l' → l' ≠ l → fs'.Vacant l'

/-- The second file system has one file more than the first one. -/
structure Adds (p : Path) (bs : Bytes) (fs fs' : FileSystem) : Prop where
  new : fs'.Stores p bs
  spares : Spares p.location fs fs'

theorem Vacant.adds (vacant : fs.Vacant p.location) (h : fs.write p bs = .ok fs') :
    Adds p bs fs fs' := by
  obtain ⟨hstores, hnone, rfl⟩ := vacant.write h
  exact ⟨hstores, fun stores => stores.create hnone bs, fun vacant' hne => vacant'.create hne⟩

theorem Room.adds (room : fs.Room p) (bs : Bytes) : Adds p bs fs (fs.create p.location bs) := by
  have vacant : fs.Vacant p.location := by
    intro id hid
    rw [room.2] at hid
    cases hid
  exact vacant.adds (room.write bs)

/-- Where there is room for several files, they can have any contents. -/
theorem exists_stores {files : List (Path × Bytes)} (rooms : ∀ e ∈ files, fs.Room e.1)
    (apart : (files.map fun e => e.1.location).Nodup) :
    ∃ fs' : FileSystem, (∀ {q : Path} {bs : Bytes}, fs.Stores q bs → fs'.Stores q bs) ∧
      ∀ e ∈ files, fs'.Stores e.1 e.2 := by
  induction files generalizing fs with
  | nil => exact ⟨fs, fun stores => stores, by simp⟩
  | cons e files ih =>
    obtain ⟨room, rooms⟩ := List.forall_mem_cons.mp rooms
    obtain ⟨hapart, apart⟩ := List.nodup_cons.mp apart
    have adds := room.adds e.2
    have rooms' : ∀ e' ∈ files, (fs.create e.1.location e.2).Room e'.1 := by
      intro e' he'
      refine (rooms e' he').create room.2 ?_ e.2
      intro heq
      exact hapart (List.mem_map.mpr ⟨e', he', heq⟩)
    obtain ⟨fs', keeps, stores⟩ := ih rooms' apart
    exact ⟨fs', fun h => keeps (adds.spares.stores h),
      List.forall_mem_cons.mpr ⟨keeps adds.new, stores⟩⟩

theorem Stores.find (stores : Stores fs p bs) :
    ∃ id, fs.find p = .ok (.file id) ∧ fs.content id = bs := by
  obtain ⟨l, id, hleads, hplace, -, hcontent⟩ := stores
  exact ⟨id, hleads.find hplace, hcontent⟩

theorem Stores.read (stores : Stores fs p bs) : fs.read p = .ok bs := by
  obtain ⟨id, hfind, hcontent⟩ := stores.find
  rw [FileSystem.read, hfind, ok_bind, ← hcontent]
  rfl

theorem Stores.lengthAt (stores : Stores fs p bs) : fs.lengthAt p = bs.length := by
  obtain ⟨id, hfind, hcontent⟩ := stores.find
  rw [FileSystem.lengthAt, hfind, ← hcontent]

theorem Vacant.read (vacant : fs.Vacant p.location) : ∃ cause, fs.read p = .error cause := by
  rw [FileSystem.read]
  cases hfind : fs.find p with
  | error cause => exact ⟨cause, rfl⟩
  | ok place =>
    cases place with
    | directory => exact ⟨.isDirectory, rfl⟩
    | file id => exact absurd (placeAt_of_find hfind) (vacant id)

/-! ## New directories -/

/-- Where the second file system has a file, the first one has it too. -/
def NoNewFile (fs fs' : FileSystem) : Prop :=
  ∀ l id, fs'.placeAt l = some (.file id) → fs.placeAt l = some (.file id)

theorem NoNewFile.refl (fs : FileSystem) : NoNewFile fs fs := fun _ _ h => h

theorem NoNewFile.trans {fs'' : FileSystem} (h : NoNewFile fs fs') (h' : NoNewFile fs' fs'') :
    NoNewFile fs fs'' :=
  fun l id hid => h l id (h' l id hid)

theorem Vacant.of_noNewFile (vacant : fs.Vacant l) (h : NoNewFile fs fs') : fs'.Vacant l :=
  fun id hid => vacant id (h l id hid)

/-- A directory that is made comes where nothing is. -/
theorem exists_of_makeDirectory {start : Location} {steps : List PathStep}
    (h : fs.makeDirectory start steps = .ok fs') :
    ∃ l, fs.placeAt l = none ∧ fs' = ⟨(l, .directory) :: fs.places, fs.contents⟩ := by
  unfold makeDirectory at h
  split at h
  · rename_i name above
    obtain ⟨directory, -, h⟩ := bind_eq_ok.mp h
    obtain ⟨place, hentry, h⟩ := bind_eq_ok.mp h
    cases place with
    | some place => cases h
    | none =>
      cases h
      exact ⟨directory.below name, (entry_eq_ok_iff.mp hentry).2, rfl⟩
  · obtain ⟨directory, -, h⟩ := bind_eq_ok.mp h
    cases h

section

variable {R : FileSystem → FileSystem → Prop} (refl : ∀ fs, R fs fs)
  (trans : ∀ {fs fs' fs'' : FileSystem}, R fs fs' → R fs' fs'' → R fs fs'')
  (made : ∀ {fs : FileSystem} {l : Location}, fs.placeAt l = none →
    R fs ⟨(l, .directory) :: fs.places, fs.contents⟩)

include refl made

theorem related_ensureDirectory {start : Location} {steps : List PathStep}
    (h : fs.ensureDirectory start steps = .ok fs') : R fs fs' := by
  unfold ensureDirectory at h
  split at h
  · split at h
    · cases h
      exact refl fs
    · cases h
  · obtain ⟨l, hnone, rfl⟩ := exists_of_makeDirectory h
    exact made hnone

include trans

theorem related_ensureAll (start : Location) (stages : List (List PathStep)) :
    R fs (fs.ensureAll start stages).2 := by
  induction stages with
  | nil => exact refl fs
  | cons steps above ih =>
    rw [ensureAll]
    split
    · exact related_ensureDirectory refl made ‹_›
    · split
      · rename_i hall
        rw [hall] at ih
        exact ih
      · rename_i hall
        rw [hall] at ih
        split
        · exact trans ih (related_ensureDirectory refl made ‹_›)
        · exact ih
    · exact refl fs

/-- What one new directory does, and so do several of them one after another, is done by making
directories, also when it fails. -/
theorem related_makeDirectories (p : Path) : R fs (fs.makeDirectories p).2 := by
  rw [makeDirectories]
  by_cases hempty : p.text = ""
  · rw [if_pos hempty]
    exact refl fs
  · rw [if_neg hempty]
    cases Route.ofPath p with
    | error cause => exact refl fs
    | ok r => exact related_ensureAll refl trans made r.start _

end

theorem noNewFile_directory (l : Location) :
    NoNewFile fs ⟨(l, .directory) :: fs.places, fs.contents⟩ := by
  intro l' id hid
  rw [placeAt_add fs.places fs.contents] at hid
  split at hid
  · cases hid
  · split at hid
    · cases hid
    · exact hid

/-- Making directories creates no file. -/
theorem noNewFile_makeDirectories (p : Path) : NoNewFile fs (fs.makeDirectories p).2 :=
  related_makeDirectories NoNewFile.refl NoNewFile.trans (fun _ => noNewFile_directory _) p

end FileSystem

end SpatialSegment
