import SpatialSegment.Proofs.File.Directories
import SpatialSegment.Proofs.Segment.Success

/-!
# What an error leaves

Steps that write files end with a value, with an error, or by breaking off. What every file written
keeps is kept however they end, and only a filter that cannot be built lets them break off. After an
error the files are removed, those that had not been written as well, so that none is left.
-/

namespace SpatialSegment

namespace Writing

variable {α β : Type} {I : FileSystem → Prop} {P Q : Prop}

/-- However the steps end they keep the invariant, and they break off only under a condition. -/
def Safe (I : FileSystem → Prop) (P : Prop) (steps : Writing α) : Prop :=
  ∀ fs, I fs → I (steps.run.run fs).2 ∧ ((steps.run.run fs).1 = .error .aborted → P)

theorem Safe.bind {steps : Writing α} {next : α → Writing β} (h : Safe I P steps)
    (hnext : ∀ a, Safe I P (next a)) : Safe I P (steps >>= next) := by
  intro fs hfs
  obtain ⟨hkept, hbreak⟩ := h fs hfs
  rw [run_bind]
  cases hresult : (steps.run.run fs).1 with
  | error failure =>
    refine ⟨hkept, fun heq => hbreak ?_⟩
    cases heq
    exact hresult
  | ok a => exact hnext a _ hkept

theorem Safe.mono {steps : Writing α} (h : Safe I P steps) (hPQ : P → Q) : Safe I Q steps :=
  fun fs hfs => (h fs hfs).imp_right (hPQ ∘ ·)

theorem safe_ofResult (result : Result α) : Safe I P (ofResult result) := by
  intro fs hfs
  cases result with
  | error cause => exact ⟨hfs, fun heq => by cases heq⟩
  | ok a => exact ⟨hfs, fun heq => by cases heq⟩

theorem safe_error (cause : SegmentError) (next : α → Writing β) :
    Safe I P (throw (.error cause) >>= next) :=
  fun _ hfs => ⟨hfs, fun heq => by cases heq⟩

section

variable (written : ∀ {fs fs' : FileSystem} {p : Path} {bs : Bytes}, I fs →
  fs.write p bs = .ok fs' → I fs')

include written

theorem safe_file (path : Path) (bs : Bytes) : Safe I P (file path bs) := by
  intro fs hfs
  rw [run_file]
  cases hwrite : fs.write path bs with
  | error cause => exact ⟨hfs, fun heq => by cases heq⟩
  | ok fs' => exact ⟨written hfs hwrite, fun heq => by cases heq⟩

theorem safe_writeLog (path : Path) (tuples : List Tuple) :
    Safe I P (Segment.writeLog path tuples) :=
  (safe_file written _ _).bind fun _ => safe_ofResult _

theorem safe_writeIndex (path : Path) (offsets : List Nat) :
    Safe I P (Segment.writeIndex path offsets) :=
  (safe_ofResult _).bind fun _ => safe_file written _ _

theorem safe_writeSpatialIndex (path : Path) (t : RTree) :
    Safe I P (Segment.writeSpatialIndex path t) := by
  intro fs hfs
  rw [Segment.run_writeSpatialIndex]
  cases hwrite : fs.write path t.image.1 with
  | error cause => exact ⟨hfs, fun heq => by cases heq⟩
  | ok fs' =>
    refine ⟨written hfs hwrite, fun heq => ?_⟩
    cases himage : t.image.2 <;> simp [himage, Except.mapError] at heq

theorem safe_writeFilter (path : Path) (seed : Bytes) (keys : List String) (rate : Float) :
    Safe I (Filter.build? seed keys keys.length rate = none)
      (Segment.writeFilter path seed keys rate) := by
  unfold Segment.writeFilter
  cases Filter.build? seed keys keys.length rate with
  | none => exact fun fs hfs => ⟨hfs, fun _ => rfl⟩
  | some filter => exact safe_file written _ _

theorem safe_writeIndexes (files : SegmentPaths) (table : TableName) (number : UInt64)
    (tree : RTree) (tuples : List Tuple) :
    Safe I P (Segment.writeIndexes files table number tree tuples) := by
  refine (safe_ofResult _).bind fun summary => ?_
  refine (safe_writeLog written _ _).bind fun offsets => ?_
  refine (safe_writeIndex written _ _).bind fun _ => ?_
  cases tree.insertAll (Segment.spatialEntries tuples offsets) with
  | mk full all =>
    cases all with
    | false => exact safe_error _ _
    | true =>
      exact (safe_writeSpatialIndex written _ _).bind fun _ => safe_ofResult (.ok summary)

theorem safe_writeSidecars (files : SegmentPaths) (config : Config) (seed : Bytes)
    (tuples : List Tuple) (summary : Summary) :
    Safe I (config.useFilter = true ∧
        Filter.build? seed (tuples.map Tuple.key) tuples.length config.filterRate = none)
      (Segment.writeSidecars files config seed tuples summary) := by
  unfold Segment.writeSidecars
  cases huse : config.useFilter with
  | false => exact safe_file written _ _
  | true =>
    refine Safe.bind ?_ fun _ => safe_file written _ _
    refine (safe_writeFilter written _ _ _ _).mono fun hbuild => ⟨rfl, ?_⟩
    rwa [List.length_map] at hbuild

/-- Only a filter that cannot be built lets the steps break off. -/
theorem safe_writeAll (files : SegmentPaths) (table : TableName) (number : UInt64) (config : Config)
    (tree : RTree) (seed : Bytes) (tuples : List Tuple) :
    Safe I (config.useFilter = true ∧
        Filter.build? seed (tuples.map Tuple.key) tuples.length config.filterRate = none)
      (Segment.writeAll files table number config tree seed tuples) := by
  rw [Segment.writeAll_eq]
  exact (safe_writeIndexes written files table number tree tuples).bind fun summary =>
    safe_writeSidecars written files config seed tuples summary

end

end Writing

namespace Segment

open FileSystem

variable {fs fs' : FileSystem}

/-! ## Removals -/

/-- No file is left at the paths, and nothing else has come or gone but files. -/
structure Cleared (fs : FileSystem) (paths : List Path) (fs' : FileSystem) : Prop where
  absent : ∀ p ∈ paths, fs'.NoFileAt p
  keeps : Keeps fs' fs
  directories : SameDirectories fs fs'

theorem cleared_step (fs : FileSystem) (p : Path) :
    Cleared fs [p] (((fs.removeIfPresent p).toOption).getD fs) := by
  cases hremove : fs.removeIfPresent p with
  | error cause =>
    refine ⟨fun q hq => ?_, Keeps.refl fs, SameDirectories.refl fs⟩
    obtain rfl := List.mem_singleton.mp hq
    exact noFileAt_of_removeIfPresent_error hremove
  | ok fs' =>
    obtain ⟨habsent, hkeeps⟩ := removed_of_removeIfPresent hremove
    refine ⟨fun q hq => ?_, hkeeps, sameDirectories_removeIfPresent hremove⟩
    obtain rfl := List.mem_singleton.mp hq
    exact noFileAt_of_absent habsent

/-- What one removal has taken away stays away in the others. -/
theorem cleared_removeAll (fs : FileSystem) (paths : List Path) :
    Cleared fs paths (removeAll fs paths) := by
  induction paths generalizing fs with
  | nil => exact ⟨by simp, Keeps.refl fs, SameDirectories.refl fs⟩
  | cons p paths ih =>
    have hstep := cleared_step fs p
    have hrest := ih (((fs.removeIfPresent p).toOption).getD fs)
    refine ⟨List.forall_mem_cons.mpr ⟨?_, hrest.absent⟩, hrest.keeps.trans hstep.keeps,
      hstep.directories.trans hrest.directories⟩
    exact hrest.keeps.noFileAt (hstep.absent p (List.mem_singleton.mpr rfl))

/-- Where no file is left nothing is, unless a directory was there. -/
theorem Cleared.isPresent {paths : List Path} (cleared : Cleared fs paths fs') {p : Path}
    (hp : p ∈ paths) {made : FileSystem} (same : SameDirectories made fs)
    (absent : made.isPresent p = false) : fs'.isPresent p = false := by
  rw [FileSystem.isPresent] at absent ⊢
  cases hfind : fs'.find p with
  | error cause => rfl
  | ok place =>
    cases place with
    | file id => exact absurd hfind (cleared.absent p hp id)
    | directory =>
      rw [(same.trans cleared.directories).find hfind] at absent
      cases absent

/-! ## Calls that fail -/

section

variable {base : Path} {table : TableName} {number : UInt64} {config : Config} {seed : Bytes}
  {tuples : List Tuple}

theorem noFileAt_of_directory_error
    (absent : ∀ p ∈ (SegmentPaths.ofNumber table base number).toList, fs.NoFileAt p)
    {cause : IoFault} (h : fs.makeDirectories (table.directory base) = (.error cause, fs')) :
    ∀ p ∈ (SegmentPaths.ofNumber table base number).toList, fs'.NoFileAt p := by
  rw [SegmentPaths.toList_ofNumber] at absent ⊢
  intro p hp
  have hp' := hp
  obtain ⟨suffix, hsuffix, rfl⟩ := List.mem_map.mp hp
  exact (absent _ hp').of_makeDirectories_error (table.directory_ne_nil base)
    (SegmentPaths.isFileName_of_suffix (SegmentPaths.slash_notMem_suffix hsuffix)) h

theorem sameDirectories_writeAll {files : SegmentPaths} {tree : RTree}
    {result : Except Failure Unit}
    (h : (writeAll files table number config tree seed tuples).run.run fs = (result, fs')) :
    SameDirectories fs fs' := by
  have safe := Writing.safe_writeAll (I := SameDirectories fs)
    (fun same hwrite => same.trans (sameDirectories_write hwrite)) files table number config tree
    seed tuples fs (SameDirectories.refl fs)
  rw [h] at safe
  exact safe.1

theorem filter_of_writeAll_aborted {files : SegmentPaths} {tree : RTree}
    (h : (writeAll files table number config tree seed tuples).run.run fs =
      (.error .aborted, fs')) :
    config.useFilter = true ∧
      Filter.build? seed (tuples.map Tuple.key) tuples.length config.filterRate = none := by
  have safe := Writing.safe_writeAll (I := fun _ => True) (fun _ _ => trivial) files table number
    config tree seed tuples fs trivial
  rw [h] at safe
  exact safe.2 rfl

/-- After an error none of the files is left, and at their paths nothing else has come either, other
than directories that belong to the one of the table. -/
theorem noFileAt_of_write_error
    (absent : ∀ p ∈ (SegmentPaths.ofNumber table base number).toList, fs.NoFileAt p)
    {cause : SegmentError} {left : FileSystem}
    (h : (write base table number config seed tuples).run.run fs = (.error (.error cause), left)) :
    ∀ p ∈ (SegmentPaths.ofNumber table base number).toList, left.NoFileAt p ∧
      ((fs.makeDirectories (table.directory base)).2.isPresent p = false →
        left.isPresent p = false) := by
  intro p hp
  cases ending_of_write h with
  | present | nodeSize => exact ⟨absent p hp, (keeps_makeDirectories _).absent⟩
  | directory hmade =>
    rw [hmade]
    exact ⟨noFileAt_of_directory_error absent hmade p hp, id⟩
  | @failed _ _ made filled hmade hall =>
    rw [hmade]
    have cleared := cleared_removeAll filled (SegmentPaths.ofNumber table base number).toList
    exact ⟨cleared.absent p hp, cleared.isPresent hp (sameDirectories_writeAll hall)⟩

/-- Only a filter that cannot be built lets a call break off. -/
theorem filter_of_write_aborted {left : FileSystem}
    (h : (write base table number config seed tuples).run.run fs = (.error .aborted, left)) :
    config.useFilter = true ∧ Filter.build? seed ((sorted tuples).map Tuple.key)
      (sorted tuples).length config.filterRate = none := by
  cases ending_of_write h with
  | broken hmade hall => exact filter_of_writeAll_aborted hall

end

end Segment

end SpatialSegment
