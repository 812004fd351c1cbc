import SpatialSegment.Proofs.File.Removal

/-!
# Directories

Writing and removing files makes no directory and takes none away, so a path leads to a directory
afterwards exactly if it did before. Making directories keeps what is there. Where that fails the
directory asked for cannot be reached, so that nothing below it is found.
-/

namespace SpatialSegment

namespace FileSystem

variable {fs fs' : FileSystem} {l : Location} {p : Path} {bs : Bytes}

/-- The directories of the two file systems are the same. -/
def SameDirectories (fs fs' : FileSystem) : Prop :=
  ∀ l, fs.placeAt l = some .directory ↔ fs'.placeAt l = some .directory

theorem SameDirectories.refl (fs : FileSystem) : SameDirectories fs fs := fun _ => Iff.rfl

theorem SameDirectories.trans {fs'' : FileSystem} (h : SameDirectories fs fs')
    (h' : SameDirectories fs' fs'') : SameDirectories fs fs'' :=
  fun l => (h l).trans (h' l)

theorem sameDirectories_create (hnone : fs.placeAt l = none) (bs : Bytes) :
    SameDirectories fs (fs.create l bs) := by
  intro l'
  constructor
  · exact keeps_create hnone l' _
  · intro hplace
    rw [placeAt_create] at hplace
    split at hplace
    · rename_i hroot
      rw [placeAt, if_pos hroot]
    · split at hplace
      · cases hplace
      · exact hplace

theorem sameDirectories_write (h : fs.write p bs = .ok fs') : SameDirectories fs fs' := by
  obtain ⟨l, -, ⟨hnone, rfl⟩ | ⟨id, -, rfl⟩⟩ := exists_leads_of_write h
  · exact sameDirectories_create hnone bs
  · exact fun l' => Iff.rfl

theorem sameDirectories_without {id : Nat} (h : fs.placeAt l = some (.file id)) :
    SameDirectories fs (fs.without l) := by
  intro l'
  constructor
  · intro hplace
    have hne : l' ≠ l := by
      rintro rfl
      rw [h] at hplace
      cases hplace
    rw [placeAt_without, if_neg hne, hplace, ite_self]
  · exact keeps_without fs l l' _

theorem sameDirectories_removeIfPresent (h : fs.removeIfPresent p = .ok fs') :
    SameDirectories fs fs' := by
  rw [removeIfPresent] at h
  split at h
  · cases h
    exact SameDirectories.refl fs
  · obtain ⟨l, id, hlocate, rfl⟩ := exists_of_remove h
    exact sameDirectories_without (of_locate_file hlocate).2

theorem SameDirectories.find (same : SameDirectories fs fs') (h : fs'.find p = .ok .directory) :
    fs.find p = .ok .directory := by
  obtain ⟨l, hlocate⟩ := locate_of_find h
  exact find_of_locate (locate_of_directories (fun l' => (same l').mpr) hlocate (same l).mpr)

/-! ## New directories -/

theorem keeps_directory (hnone : fs.placeAt l = none) :
    Keeps fs ⟨(l, .directory) :: fs.places, fs.contents⟩ := by
  intro l' place hplace
  have hne : l' ≠ l := by
    rintro rfl
    rw [hnone] at hplace
    cases hplace
  rw [placeAt_add fs.places fs.contents, if_neg hne]
  split
  · rename_i hroot
    rwa [placeAt, if_pos hroot] at hplace
  · exact hplace

/-- Making directories keeps what is there, also when it fails. -/
theorem keeps_makeDirectories (p : Path) : Keeps fs (fs.makeDirectories p).2 :=
  related_makeDirectories Keeps.refl Keeps.trans keeps_directory p

/-- Making directories changes no content. -/
theorem contents_makeDirectories (p : Path) : (fs.makeDirectories p).2.contents = fs.contents :=
  related_makeDirectories (R := fun fs fs' => fs'.contents = fs.contents) (fun _ => rfl)
    (fun h h' => h'.trans h) (fun _ => rfl) p

/-! ## Directories that cannot be made -/

theorem exists_walk_of_append {start : Location} {further steps : List PathStep}
    (h : fs.walk start (further ++ steps) = .ok l) : ∃ l', fs.walk start steps = .ok l' := by
  induction further generalizing l with
  | nil => exact ⟨l, h⟩
  | cons step further ih =>
    rw [List.cons_append, walk] at h
    obtain ⟨directory, hwalk, -⟩ := bind_eq_ok.mp h
    exact ih hwalk

/-- A directory that can be reached is no failure. -/
theorem ensureDirectory_ne_error {start : Location} {steps : List PathStep}
    (h : fs.walk start steps = .ok l) (cause : IoFault) :
    fs.ensureDirectory start steps ≠ .error cause := by
  have hmake : fs.makeDirectory start steps = .error .alreadyExists := by
    unfold makeDirectory
    split
    · rename_i name above
      rw [walk] at h
      obtain ⟨directory, hwalk, h⟩ := bind_eq_ok.mp h
      obtain ⟨place, hentry, h⟩ := bind_eq_ok.mp h
      cases place with
      | none => cases h
      | some place =>
        rw [hwalk, ok_bind, hentry]
        rfl
    · rw [h]
      rfl
  rw [ensureDirectory, hmake]
  simp only [h]
  intro heq
  cases heq

/-- What fails in the end is the first directory, or one of those above it. -/
theorem cases_of_ensureAll_error {start : Location} {steps : List PathStep}
    {above : List (List PathStep)} {cause : IoFault}
    (h : fs.ensureAll start (steps :: above) = (.error cause, fs')) :
    fs'.ensureDirectory start steps = .error cause ∨
      fs.ensureAll start above = (.error cause, fs') := by
  rw [ensureAll] at h
  split at h
  · cases h
  · split at h
    · cases h
      exact .inr ‹_›
    · split at h
      · cases h
      · cases h
        exact .inl ‹_›
  · cases h
    exact .inl ‹_›

theorem walk_ne_ok_of_ensureAll {start : Location} {steps : List PathStep}
    {above : List (List PathStep)} {cause : IoFault}
    (nested : (steps :: above).Pairwise fun s t => t <:+ s)
    (h : fs.ensureAll start (steps :: above) = (.error cause, fs')) :
    fs'.walk start steps ≠ .ok l := by
  intro hwalk
  induction above generalizing steps l with
  | nil =>
    obtain hensure | hall := cases_of_ensureAll_error h
    · exact ensureDirectory_ne_error hwalk cause hensure
    · cases hall
  | cons next above ih =>
    obtain hensure | hall := cases_of_ensureAll_error h
    · exact ensureDirectory_ne_error hwalk cause hensure
    · obtain ⟨hsuffix, nested'⟩ := List.pairwise_cons.mp nested
      obtain ⟨further, rfl⟩ := hsuffix next List.mem_cons_self
      obtain ⟨l', hnext⟩ := exists_walk_of_append hwalk
      exact ih nested' hall hnext

theorem suffix_of_mem_stages {steps stage : List PathStep} (h : stage ∈ Route.stages steps) :
    stage <:+ steps := by
  induction steps with
  | nil => cases h
  | cons step steps ih =>
    cases step with
    | stay => exact (ih h).trans (List.suffix_cons _ _)
    | up | into name =>
      rcases List.mem_cons.mp h with rfl | hmem
      · exact List.suffix_rfl
      · exact (ih hmem).trans (List.suffix_cons _ _)

theorem pairwise_stages (steps : List PathStep) :
    (Route.stages steps).Pairwise fun s t => t <:+ s := by
  induction steps with
  | nil => exact List.Pairwise.nil
  | cons step steps ih =>
    cases step with
    | stay => exact ih
    | up | into name =>
      refine List.pairwise_cons.mpr ⟨fun stage hstage => ?_, ih⟩
      exact (suffix_of_mem_stages hstage).trans (List.suffix_cons _ _)

/-- What is found below a directory is found after its steps. -/
theorem walk_of_find_join {base : Path} (hbase : base.text.toList ≠ []) {name : String}
    (isName : IsFileName name) {place : Place} (h : fs.find (base.join name) = .ok place) :
    ∃ l, fs.walk ⟨base.startsAtRoot, []⟩ base.steps.reverse = .ok l := by
  obtain ⟨l, hlocate⟩ := locate_of_find h
  obtain ⟨r, hroute, hfollow⟩ := bind_eq_ok.mp hlocate
  obtain rfl := ofPath_eq_ok hroute
  rw [Path.reverse_steps_join isName, Path.startsAtRoot_join hbase] at hfollow
  obtain ⟨directory, hwalk, -⟩ := bind_eq_ok.mp hfollow
  exact ⟨directory, hwalk⟩

/-- Where the directories of a path cannot all be made, no file is found below it that was not found
before. -/
theorem NoFileAt.of_makeDirectories_error {base : Path} (hbase : base.text.toList ≠ [])
    {name : String} (isName : IsFileName name) {cause : IoFault}
    (absent : fs.NoFileAt (base.join name))
    (h : fs.makeDirectories base = (.error cause, fs')) : fs'.NoFileAt (base.join name) := by
  rw [makeDirectories] at h
  split at h
  · cases h
  · split at h
    · cases h
      exact absent
    · rename_i r hroute
      obtain rfl := ofPath_eq_ok hroute
      intro id hfind
      obtain ⟨l, hwalk⟩ := walk_of_find_join hbase isName hfind
      refine walk_ne_ok_of_ensureAll (List.pairwise_cons.mpr ⟨fun stage hstage => ?_, ?_⟩) h hwalk
      · exact suffix_of_mem_stages (List.mem_of_mem_tail hstage)
      · exact (pairwise_stages _).tail

end FileSystem

end SpatialSegment
