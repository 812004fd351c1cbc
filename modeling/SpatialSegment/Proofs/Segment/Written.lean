import SpatialSegment.Segment.Write
import SpatialSegment.Proofs.File.Replacing
import SpatialSegment.Proofs.Filter
import SpatialSegment.Proofs.Log
import SpatialSegment.Proofs.RTree.Saved
import SpatialSegment.Proofs.Segment.Paths
import SpatialSegment.Proofs.Segment.Sorted
import SpatialSegment.Proofs.Summary

/-!
# What writing leaves

A call that gives paths has gone through all its steps: each of the files was written, over one that
was there or where none was, and stays as it was written while the others are written. Without a
filter to be written, the file that is in its place stays.
-/

namespace SpatialSegment

namespace Writing

variable {fs fs' : FileSystem}

theorem of_ofResult {α : Type} {result : Result α} {a : α}
    (h : (ofResult result).run.run fs = (.ok a, fs')) : result = .ok a ∧ fs' = fs := by
  cases result with
  | error cause => cases h
  | ok a' =>
    cases h
    exact ⟨rfl, rfl⟩

theorem run_file (fs : FileSystem) (path : Path) (bs : Bytes) :
    (file path bs).run.run fs =
      (match fs.write path bs with
        | .ok fs => (.ok (), fs)
        | .error cause => (.error (.error (.fileIo path 0 cause)), fs)) :=
  rfl

theorem of_file {path : Path} {bs : Bytes} {done : Unit}
    (h : (file path bs).run.run fs = (.ok done, fs')) : fs.write path bs = .ok fs' := by
  rw [run_file] at h
  cases hwrite : fs.write path bs with
  | error cause =>
    rw [hwrite] at h
    cases h
  | ok written =>
    rw [hwrite] at h
    cases h
    rfl

theorem run_onError {α : Type} (steps : Writing α) (after : FileSystem → FileSystem)
    (fs : FileSystem) :
    (onError steps after).run.run fs =
      (match steps.run.run fs with
        | (.error (.error cause), fs) => (.error (.error cause), after fs)
        | done => done) :=
  rfl

theorem of_onError {α : Type} {steps : Writing α} {after : FileSystem → FileSystem} {a : α}
    (h : (onError steps after).run.run fs = (.ok a, fs')) : steps.run.run fs = (.ok a, fs') := by
  rw [run_onError] at h
  cases hsteps : steps.run.run fs with
  | mk result written =>
    rw [hsteps] at h
    cases result with
    | error failure => cases failure <;> cases h
    | ok a' => exact h

end Writing

namespace Segment

variable {fs fs' : FileSystem}

/-- A filter that lets the keys of the tuples pass is at the path. -/
def FilterStored (fs : FileSystem) (path : Path) (order : List Tuple) : Prop :=
  ∃ f : Filter, f.Storable ∧ 0 < f.bits.size ∧ (∀ t ∈ order, f.contains? t.key = some true) ∧
    fs.Stores path f.toBytes

/-- No filter is stored, or one that lets the keys of the tuples pass. -/
def FilterWritten (fs : FileSystem) (path : Path) (order : List Tuple) : Prop :=
  fs.Vacant path.location ∨ FilterStored fs path order

/-- The four files of tuples in order that are always written. -/
structure Indexed (fs : FileSystem) (files : SegmentPaths) (order : List Tuple) : Prop where
  recorded : Recorded FileFormat.bodyStart order
  log : fs.Stores files.log (FileFormat.tupleLog.magic ++ order.flatMap Record.stored)
  index : fs.Stores files.keyIndex (FileFormat.keyIndex.magic ++
    (recordOffsets FileFormat.bodyStart order).flatMap (Word.big 4))
  tree : ∃ t : RTree, t.Sound ∧
    t.entries.Perm (spatialEntries order (recordOffsets FileFormat.bodyStart order)) ∧
    t.image.2 = .ok () ∧ fs.Stores files.spatialIndex t.image.1
  summary : ∃ summary, Summary.ofTuples order = .ok summary ∧
    fs.Stores files.summary summary.toBytes

/-- The five files of tuples in order. -/
structure Written (fs : FileSystem) (files : SegmentPaths) (order : List Tuple) : Prop
    extends Indexed fs files order where
  filter : FilterWritten fs files.filter order

theorem of_writeLog {path : Path} {tuples : List Tuple} {offsets : List Nat}
    (h : (writeLog path tuples).run.run fs = (.ok offsets, fs')) :
    offsets = recordOffsets FileFormat.bodyStart tuples ∧ Recorded FileFormat.bodyStart tuples ∧
      fs.write path (FileFormat.tupleLog.magic ++ tuples.flatMap Record.stored) = .ok fs' := by
  unfold writeLog at h
  obtain ⟨_, fs₁, hfile, hnext⟩ := exists_of_bind_ok h
  obtain ⟨hrecords, rfl⟩ := Writing.of_ofResult hnext
  obtain ⟨hbytes, hoffsets, hrecorded⟩ := records_of_ok hrecords
  rw [← hbytes]
  exact ⟨hoffsets, hrecorded, Writing.of_file hfile⟩

theorem indexWord_of_ok {offset : Nat} {word : Bytes} (h : indexWord offset = .ok word) :
    word = Word.big 4 offset := by
  unfold indexWord at h
  split at h
  · cases h
  · exact (Except.ok.inj h).symm

theorem mapM_indexWord_of_ok {offsets : List Nat} {words : List Bytes}
    (h : offsets.mapM indexWord = .ok words) : words.flatten = offsets.flatMap (Word.big 4) := by
  induction offsets generalizing words with
  | nil =>
    cases h
    rfl
  | cons offset offsets ih =>
    rw [List.mapM_cons] at h
    obtain ⟨word, hword, h⟩ := bind_eq_ok.mp h
    obtain ⟨rest, hrest, h⟩ := bind_eq_ok.mp h
    cases h
    rw [List.flatten_cons, indexWord_of_ok hword, ih hrest, List.flatMap_cons]

theorem of_writeIndex {path : Path} {offsets : List Nat} {done : Unit}
    (h : (writeIndex path offsets).run.run fs = (.ok done, fs')) :
    fs.write path (FileFormat.keyIndex.magic ++ offsets.flatMap (Word.big 4)) = .ok fs' := by
  unfold writeIndex at h
  obtain ⟨words, fs₁, hwords, hnext⟩ := exists_of_bind_ok h
  obtain ⟨hmap, rfl⟩ := Writing.of_ofResult hwords
  have hwrite := Writing.of_file hnext
  rwa [mapM_indexWord_of_ok hmap] at hwrite

theorem run_writeSpatialIndex (fs : FileSystem) (path : Path) (t : RTree) :
    (writeSpatialIndex path t).run.run fs =
      (match fs.write path t.image.1 with
        | .error cause => (.error (.error (.fileIo path 0 cause)), fs)
        | .ok fs => (t.image.2.mapError .error, fs)) := by
  have hrun : (writeSpatialIndex path t).run.run fs =
      ((t.save fs path).1.mapError .error, (t.save fs path).2) := rfl
  have hsave : t.save fs path =
      (match fs.write path t.image.1 with
        | .error cause => (.error (.fileIo path 0 cause), fs)
        | .ok fs => (t.image.2, fs)) := rfl
  rw [hrun, hsave]
  cases fs.write path t.image.1 <;> rfl

theorem of_writeSpatialIndex {path : Path} {t : RTree} {done : Unit}
    (h : (writeSpatialIndex path t).run.run fs = (.ok done, fs')) :
    t.image.2 = .ok () ∧ fs.write path t.image.1 = .ok fs' := by
  rw [run_writeSpatialIndex] at h
  cases hwrite : fs.write path t.image.1 with
  | error cause =>
    rw [hwrite] at h
    cases h
  | ok written =>
    rw [hwrite] at h
    cases hresult : t.image.2 with
    | error cause =>
      simp only [hresult] at h
      cases h
    | ok _ =>
      simp only [hresult] at h
      cases h
      exact ⟨rfl, rfl⟩

/-- A filter that is written is stored, and lets the keys of the tuples pass. -/
theorem filterStored_of_build {f : Filter} {path : Path} {seed : Bytes} {order : List Tuple}
    {expected : Nat} {rate : Float} (hseed : seed.length = 32)
    (hbuild : Filter.build? seed (order.map Tuple.key) expected rate = some f)
    (stores : fs.Stores path f.toBytes) : FilterStored fs path order := by
  obtain ⟨hstorable, hsize, hkeys⟩ := Filter.of_buildWith? hseed hbuild
  exact ⟨f, hstorable, hsize, fun t ht => hkeys t.key (List.mem_map_of_mem ht), stores⟩

/-- A filter is at the path if one is to be written, and otherwise what was at its location. -/
structure FilterLeft (path : Path) (order : List Tuple) (useFilter : Bool)
    (fs fs' : FileSystem) : Prop where
  stored : useFilter = true → FilterStored fs' path order
  kept : useFilter = false → fs'.contentAt path.location = fs.contentAt path.location

/-- The last steps: the filter, if one is to be written, and the summary. -/
theorem of_lastSteps {fs₀ : FileSystem} {done : List (Path × Bytes)} {filter last : Path}
    {seed bs : Bytes} {order : List Tuple} {rate : Float} {useFilter : Bool} {u : Unit}
    (hseed : seed.length = 32) (progress : FileSystem.Progress fs₀ fs done [filter, last])
    (h : (do
      if useFilter = true then writeFilter filter seed (order.map Tuple.key) rate
      Writing.file last bs : Writing Unit).run.run fs = (.ok u, fs')) :
    (∀ d ∈ (last, bs) :: done, fs'.Stores d.1 d.2) ∧
      FilterLeft filter order useFilter fs₀ fs' := by
  cases useFilter with
  | true =>
    rw [if_pos rfl] at h
    obtain ⟨_, fs₁, hfilter, hlast⟩ := exists_of_bind_ok h
    unfold writeFilter at hfilter
    cases hbuild : Filter.build? seed (order.map Tuple.key) (order.map Tuple.key).length rate with
    | none =>
      rw [hbuild] at hfilter
      cases hfilter
    | some f =>
      rw [hbuild] at hfilter
      have whole := (progress.write (Writing.of_file hfilter)).write (Writing.of_file hlast)
      obtain ⟨hsummary, hrest⟩ := List.forall_mem_cons.mp whole.stored
      obtain ⟨hstores, hdone⟩ := List.forall_mem_cons.mp hrest
      refine ⟨List.forall_mem_cons.mpr ⟨hsummary, hdone⟩, fun _ => ?_, fun hunused => ?_⟩
      · exact filterStored_of_build hseed hbuild hstores
      · cases hunused
  | false =>
    rw [if_neg Bool.false_ne_true] at h
    have whole := (progress.perm (List.Perm.swap last filter [])).write (Writing.of_file h)
    refine ⟨whole.stored, fun hused => ?_, fun _ => ?_⟩
    · cases hused
    · exact whole.kept filter (List.mem_singleton.mpr rfl)

/-- All steps for tuples in order leave their files. -/
theorem indexed_of_writeAll {files : SegmentPaths} {table : TableName} {number : UInt64}
    {config : Config} {tree : RTree} {seed : Bytes} {order : List Tuple} {done : Unit}
    (sound : tree.Sound) (hempty : tree.entries = []) (hseed : seed.length = 32)
    (apart : (files.toList.map Path.location).Nodup)
    (alone : ∀ p ∈ files.toList, fs.Alone p.location)
    (h : (writeAll files table number config tree seed order).run.run fs = (.ok done, fs')) :
    Indexed fs' files order ∧ FilterLeft files.filter order config.useFilter fs fs' := by
  have start : FileSystem.Progress fs fs [] files.toList := .start apart alone
  unfold writeAll at h
  obtain ⟨summary, fs₀, hsummary, h₁⟩ := exists_of_bind_ok h
  obtain ⟨hof, rfl⟩ := Writing.of_ofResult hsummary
  obtain ⟨offsets, fs₁, hlog, h₂⟩ := exists_of_bind_ok h₁
  obtain ⟨rfl, recorded, hlogWrite⟩ := of_writeLog hlog
  obtain ⟨_, fs₂, hindex, h₃⟩ := exists_of_bind_ok h₂
  have listed := (start.write hlogWrite).write (of_writeIndex hindex)
  cases hinsert : tree.insertAll
      (spatialEntries order (recordOffsets FileFormat.bodyStart order)) with
  | mk full all =>
    rw [hinsert] at h₃
    cases all with
    | false => cases h₃
    | true =>
      obtain ⟨fullSound, hentries⟩ := sound.insertAll hinsert
      rw [hempty, List.nil_append] at hentries
      obtain ⟨_, fs₃, htree, h₄⟩ := exists_of_bind_ok h₃
      obtain ⟨himage, htreeWrite⟩ := of_writeSpatialIndex htree
      obtain ⟨stored, left⟩ := of_lastSteps hseed (listed.write htreeWrite) h₄
      simp only [List.forall_mem_cons] at stored
      obtain ⟨summaryStored, treeStored, indexStored, logStored, -⟩ := stored
      exact ⟨⟨recorded, logStored, indexStored, ⟨full, fullSound, hentries, himage, treeStored⟩,
        ⟨summary, mapError_eq_ok.mp hof, summaryStored⟩⟩, left⟩

/-- A call that gives paths has written the tuples, in the order of their keys. -/
theorem indexed_of_write {base : Path} {table : TableName} {number : UInt64} {config : Config}
    {seed : Bytes} {tuples : List Tuple} {files : SegmentPaths} (hseed : seed.length = 32)
    (alone : ∀ p ∈ (SegmentPaths.ofNumber table base number).toList, fs.Alone p.location)
    (h : (write base table number config seed tuples).run.run fs = (.ok files, fs')) :
    files = SegmentPaths.ofNumber table base number ∧ Indexed fs' files (sorted tuples) ∧
      FilterLeft files.filter (sorted tuples) config.useFilter fs fs' := by
  unfold write at h
  obtain ⟨_, fs₀, hget, h₁⟩ := exists_of_bind_ok h
  cases hget
  by_cases hpresent : fs.isPresent (SegmentPaths.ofNumber table base number).log = true
  · simp only [if_pos hpresent] at h₁
    cases h₁
  · simp only [if_neg hpresent] at h₁
    obtain ⟨tree, fs₁, htree, h₂⟩ := exists_of_bind_ok h₁
    obtain ⟨hnew, rfl⟩ := Writing.of_ofResult htree
    obtain ⟨_, fs₂, hdirectory, h₃⟩ := exists_of_bind_ok h₂
    have hmade : fs₂ = (fs₁.makeDirectories (table.directory base)).2 :=
      (congrArg Prod.snd hdirectory).symm
    obtain ⟨_, fs₃, hall, h₄⟩ := exists_of_bind_ok h₃
    cases h₄
    refine ⟨rfl, ?_⟩
    rw [mapError_eq_ok, RTree.ofMaxNodeSize] at hnew
    by_cases htwo : 2 ≤ config.maxNodeSize
    · rw [dif_pos htwo] at hnew
      cases hnew
      subst hmade
      obtain ⟨indexed, left⟩ := indexed_of_writeAll (RTree.sound_empty config.maxNodeSize htwo) rfl
        hseed (SegmentPaths.nodup_locations table base number)
        (fun p hp => (alone p hp).makeDirectories _) (Writing.of_onError hall)
      exact ⟨indexed, left.stored, fun huse =>
        (left.kept huse).trans (FileSystem.contentAt_makeDirectories _)⟩
    · rw [dif_neg htwo] at hnew
      cases hnew

/-- Where no file was there are the files of the tuples then, and no other. -/
theorem written_of_write {base : Path} {table : TableName} {number : UInt64} {config : Config}
    {seed : Bytes} {tuples : List Tuple} {files : SegmentPaths} (hseed : seed.length = 32)
    (vacant : ∀ p ∈ (SegmentPaths.ofNumber table base number).toList, fs.Vacant p.location)
    (h : (write base table number config seed tuples).run.run fs = (.ok files, fs')) :
    files = SegmentPaths.ofNumber table base number ∧ Written fs' files (sorted tuples) := by
  obtain ⟨rfl, indexed, left⟩ := indexed_of_write hseed (fun p hp => (vacant p hp).alone) h
  refine ⟨rfl, indexed, ?_⟩
  cases huse : config.useFilter with
  | true => exact Or.inr (left.stored huse)
  | false =>
    refine Or.inl (FileSystem.contentAt_eq_none_iff.mp ?_)
    rw [left.kept huse]
    exact FileSystem.contentAt_eq_none_iff.mpr (vacant _ (SegmentPaths.filter_mem_toList _))

end Segment

end SpatialSegment
