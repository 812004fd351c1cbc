import SpatialSegment.Proofs.File.System

/-!
# Files that have been removed

A removal takes a file from its location and leaves everything else. What is somewhere afterwards
was there before, so what is gone stays gone when other files are removed.
-/

namespace SpatialSegment

namespace FileSystem

variable {fs fs' : FileSystem} {p : Path}

/-- The file system with nothing at the location. -/
def without (fs : FileSystem) (l : Location) : FileSystem :=
  { fs with places := fs.places.filter fun e => e.1 ≠ l }

theorem placeAt_without (fs : FileSystem) (l l' : Location) :
    (fs.without l).placeAt l' =
      if l'.names = [] then some .directory else if l' = l then none else fs.placeAt l' := by
  have hlookup : ∀ places : List (Location × Place),
      (places.filter fun e => e.1 ≠ l).lookup l' = if l' = l then none else places.lookup l' := by
    intro places
    induction places with
    | nil => simp
    | cons place places ih =>
      obtain ⟨spot, what⟩ := place
      by_cases hkept : spot = l
      · subst hkept
        rw [List.filter_cons_of_neg (by simp), ih, List.lookup_cons]
        by_cases hl : l' = spot
        · rw [if_pos hl, if_pos hl]
        · rw [if_neg hl, if_neg hl, beq_false_of_ne hl]
      · rw [List.filter_cons_of_pos (by simpa using hkept), List.lookup_cons, List.lookup_cons]
        by_cases hl : l' = spot
        · subst hl
          simp [hkept]
        · rw [beq_false_of_ne hl]
          exact ih
  rw [placeAt, placeAt, without, hlookup]
  by_cases hroot : l'.names = []
  · rw [if_pos hroot, if_pos hroot]
  · rw [if_neg hroot, if_neg hroot, if_neg hroot]

theorem keeps_without (fs : FileSystem) (l : Location) : Keeps (fs.without l) fs := by
  intro l' place hplace
  rw [placeAt_without] at hplace
  by_cases hroot : l'.names = []
  · rw [if_pos hroot] at hplace
    rw [placeAt, if_pos hroot]
    exact hplace
  · rw [if_neg hroot] at hplace
    by_cases hl : l' = l
    · rw [if_pos hl] at hplace
      cases hplace
    · rwa [if_neg hl] at hplace

/-! ## Paths in two file systems -/

/-- What a path leads to depends on the directories on the way and on what is there. -/
theorem locate_of_directories
    (kept : ∀ l, fs.placeAt l = some .directory → fs'.placeAt l = some .directory)
    {found : Location × Place} (h : fs.locate p = .ok found)
    (there : fs.placeAt found.1 = some found.2 → fs'.placeAt found.1 = some found.2) :
    fs'.locate p = .ok found := by
  obtain ⟨r, hroute, h⟩ := bind_eq_ok.mp h
  rw [FileSystem.locate, hroute, ok_bind]
  unfold follow at h ⊢
  split at h
  · rename_i name above hsteps
    obtain ⟨directory, hwalk, h⟩ := bind_eq_ok.mp h
    obtain ⟨place, hentry, h⟩ := bind_eq_ok.mp h
    cases place with
    | none => cases h
    | some place =>
      obtain ⟨hname, hplace⟩ := entry_eq_ok_iff.mp hentry
      by_cases hwants : r.wantsDirectory ∧ place ≠ .directory
      · simp only [if_pos hwants] at h
        cases h
      · simp only [if_neg hwants] at h
        cases h
        have hentry' := entry_eq_ok_iff.mpr ⟨hname, there hplace⟩
        simp only [walk_of_directories kept hwalk, ok_bind, hentry', if_neg hwants]
        rfl
  · obtain ⟨directory, hwalk, h⟩ := bind_eq_ok.mp h
    rw [walk_of_directories kept hwalk]
    exact h

theorem Keeps.locate (keeps : Keeps fs fs') {found : Location × Place}
    (h : fs.locate p = .ok found) : fs'.locate p = .ok found :=
  locate_of_directories (fun l => keeps l _) h (keeps _ _)

/-- What is at a path of the first file system is there in the second one too. -/
theorem Keeps.isPresent (keeps : Keeps fs fs') (h : fs.isPresent p = true) :
    fs'.isPresent p = true := by
  rw [FileSystem.isPresent, find] at h ⊢
  cases hlocate : fs.locate p with
  | error cause =>
    rw [hlocate] at h
    cases h
  | ok found =>
    rw [keeps.locate hlocate]
    rfl

theorem Keeps.absent (keeps : Keeps fs' fs) (h : fs.isPresent p = false) :
    fs'.isPresent p = false := by
  rw [← Bool.not_eq_true] at h ⊢
  intro hpresent
  exact h (keeps.isPresent hpresent)

theorem Keeps.refl (fs : FileSystem) : Keeps fs fs := fun _ _ h => h

theorem Keeps.trans {fs'' : FileSystem} (h : Keeps fs fs') (h' : Keeps fs' fs'') : Keeps fs fs'' :=
  fun l place hplace => h' l place (h l place hplace)

/-- The path leads to no file; it may lead to a directory. -/
def NoFileAt (fs : FileSystem) (p : Path) : Prop :=
  ∀ id, fs.find p ≠ .ok (.file id)

theorem locate_of_find {place : Place} (h : fs.find p = .ok place) :
    ∃ l, fs.locate p = .ok (l, place) := by
  rw [find] at h
  cases hlocate : fs.locate p with
  | error cause =>
    rw [hlocate] at h
    cases h
  | ok found =>
    rw [hlocate] at h
    cases h
    exact ⟨found.1, rfl⟩

theorem find_of_locate {found : Location × Place} (h : fs.locate p = .ok found) :
    fs.find p = .ok found.2 := by
  rw [find, h]
  rfl

theorem noFileAt_of_absent (absent : fs.isPresent p = false) : fs.NoFileAt p := by
  intro id hfind
  rw [isPresent, hfind] at absent
  cases absent

theorem Vacant.noFileAt (vacant : fs.Vacant p.location) : fs.NoFileAt p :=
  fun id hfind => vacant id (placeAt_of_find hfind)

theorem Keeps.noFileAt (keeps : Keeps fs' fs) (h : fs.NoFileAt p) : fs'.NoFileAt p := by
  intro id hfind
  obtain ⟨l, hlocate⟩ := locate_of_find hfind
  exact h id (find_of_locate (keeps.locate hlocate))

/-! ## Removals -/

theorem exists_of_remove (h : fs.remove p = .ok fs') :
    ∃ l id, fs.locate p = .ok (l, .file id) ∧ fs' = fs.without l := by
  obtain ⟨⟨l, place⟩, hlocate, h⟩ := bind_eq_ok.mp h
  cases place with
  | directory => cases h
  | file id =>
    cases h
    exact ⟨l, id, hlocate, rfl⟩

theorem absent_of_remove (h : fs.remove p = .ok fs') : fs'.isPresent p = false := by
  obtain ⟨l, id, hlocate, rfl⟩ := exists_of_remove h
  rw [isPresent, find]
  cases hafter : (fs.without l).locate p with
  | error cause => rfl
  | ok found =>
    have hfound := (keeps_without fs l).locate hafter
    rw [hlocate] at hfound
    cases hfound
    obtain ⟨-, hplace⟩ := of_locate_file hafter
    rw [placeAt_without, if_pos rfl] at hplace
    split at hplace <;> cases hplace

theorem absent_of_remove_error (h : fs.remove p = .error .notFound) : fs.isPresent p = false := by
  rw [isPresent, find]
  cases hlocate : fs.locate p with
  | error cause => rfl
  | ok found =>
    obtain ⟨l, place⟩ := found
    rw [FileSystem.remove, hlocate] at h
    cases place <;> cases h

/-- A removal fails only where no file is. -/
theorem noFileAt_of_removeIfPresent_error {cause : IoFault}
    (h : fs.removeIfPresent p = .error cause) : fs.NoFileAt p := by
  intro id hfind
  obtain ⟨l, hlocate⟩ := locate_of_find hfind
  have hremove : fs.remove p = .ok (fs.without l) := by
    rw [FileSystem.remove, hlocate]
    rfl
  rw [removeIfPresent, hremove] at h
  cases h

/-- When a removal does not fail nothing is at the path any more, and nothing is anywhere that was
not there before. -/
theorem removed_of_removeIfPresent (h : fs.removeIfPresent p = .ok fs') :
    fs'.isPresent p = false ∧ Keeps fs' fs := by
  rw [removeIfPresent] at h
  split at h
  · rename_i hremove
    cases h
    exact ⟨absent_of_remove_error hremove, Keeps.refl fs⟩
  · obtain ⟨l, -, -, hwithout⟩ := exists_of_remove h
    exact ⟨absent_of_remove h, hwithout ▸ keeps_without fs l⟩

end FileSystem

end SpatialSegment
