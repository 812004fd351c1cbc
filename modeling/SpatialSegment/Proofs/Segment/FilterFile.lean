import SpatialSegment.Proofs.Checked.Segment
import SpatialSegment.Proofs.Segment.Damaged

/-!
# The file of the filter may hold anything

A segment is opened whatever the file of its filter holds, as long as the other four files can be
opened. What is accepted as a filter is the bytes of one; every other file, and none, leaves the
gate open. Searches for keys end without a crash then, with one exception: the bytes of a filter
without bits are accepted as well, and a search that asks it crashes.
-/

namespace SpatialSegment

namespace Segment

variable {fs : FileSystem} {path : Path}

/-- The gate has a filter exactly if the file holds the bytes of that filter. -/
theorem filter_loadGate {f : Filter} :
    (loadGate fs path).filter = some f ↔ f.Storable ∧ fs.read path = .ok f.toBytes := by
  rw [loadGate]
  constructor
  · intro h
    cases hread : fs.read path with
    | error cause =>
      rw [hread] at h
      cases h
    | ok bs =>
      rw [hread] at h
      dsimp only at h
      rw [Gate.ofBytes] at h
      cases hof : Filter.ofBytes bs with
      | error cause =>
        rw [hof] at h
        cases h
      | ok f' =>
        rw [hof] at h
        cases h
        obtain ⟨storable, rfl⟩ := Filter.of_ofBytes_eq_ok hof
        exact ⟨storable, rfl⟩
  · rintro ⟨storable, hread⟩
    rw [hread]
    simp only [Gate.ofBytes_of_storable storable]

/-- The files, but for that of the filter, have their formats, and spatial index and summary can be
loaded. -/
structure Loadable (fs : FileSystem) (files : SegmentPaths) : Prop where
  log : ∃ body, fs.Stores files.log (FileFormat.tupleLog.magic ++ body) ∧
    (FileFormat.tupleLog.magic ++ body).length < View.signedLimit
  index : ∃ body, fs.Stores files.keyIndex (FileFormat.keyIndex.magic ++ body) ∧
    body.length % 4 = 0 ∧ (FileFormat.keyIndex.magic ++ body).length < View.signedLimit
  tree : ∃ t, RTree.load fs files.spatialIndex = .ok t
  summary : ∃ summary, loadSummary fs files.summary = .ok summary

/-- The filter is in use, and its file holds the bytes of a filter without bits. -/
def Bitless (fs : FileSystem) (files : SegmentPaths) (config : Config) : Prop :=
  config.useFilter = true ∧
    ∃ f : Filter, f.Storable ∧ f.bits.size = 0 ∧ fs.read files.filter = .ok f.toBytes

section

variable {base : Path} {table : TableName} {number : UInt64} {config : Config} {opened : Segment}

theorem probing_of_open (h : open? fs base table number config = .ok opened) :
    opened.gate.Probing := by
  rw [gate_of_open h]
  cases config.useFilter with
  | false => exact Gate.probing_absent
  | true =>
    intro f hf
    exact (filter_loadGate.mp hf).1.probes_pos

theorem passes_eq_none_iff (h : open? fs base table number config = .ok opened) (key : String) :
    opened.gate.passes? key = none ↔
      Bitless fs (SegmentPaths.ofNumber table base number) config := by
  rw [Gate.passes?_eq_none_iff, gate_of_open h, Bitless]
  cases config.useFilter with
  | false =>
    constructor
    · rintro ⟨f, hf, -⟩
      cases hf
    · rintro ⟨huse, -⟩
      cases huse
  | true =>
    rw [if_pos rfl]
    constructor
    · rintro ⟨f, hf, hsize⟩
      obtain ⟨storable, hread⟩ := filter_loadGate.mp hf
      exact ⟨rfl, f, storable, hsize, hread⟩
    · rintro ⟨-, f, storable, hsize, hread⟩
      exact ⟨f, filter_loadGate.mpr ⟨storable, hread⟩, hsize⟩

/-- The files of a segment that can be opened run on what they hold. -/
theorem Loadable.runs (loadable : Loadable fs (SegmentPaths.ofNumber table base number))
    (h : open? fs base table number config = .ok opened) :
    ∃ logBytes indexBytes, opened.index.log.file.Runs fs logBytes ∧
      opened.index.shared.file.Runs fs indexBytes := by
  obtain ⟨logBody, hlog, hlogSmall⟩ := loadable.log
  obtain ⟨indexBody, hindex, -, hindexSmall⟩ := loadable.index
  obtain ⟨logFile, indexFile, hlogInit, hindexInit, hsame⟩ := index_of_open h
  have hfile : opened.index.shared.file = indexFile := congrArg KeyIndex.file hsame
  have hlogFile : opened.index.log = ⟨logFile⟩ := congrArg KeyIndex.log hsame
  rw [hlogFile, hfile]
  exact ⟨_, _, GuardedFile.runs_of_init hlog hlogSmall hlogInit,
    GuardedFile.runs_of_init hindex hindexSmall hindexInit⟩

theorem Loadable.exists_open (loadable : Loadable fs (SegmentPaths.ofNumber table base number))
    (capacity : config.cacheCapacity ≤ RecentKeys.maxCapacity) :
    ∃ opened, open? fs base table number config = .ok opened := by
  obtain ⟨logBody, hlog, -⟩ := loadable.log
  obtain ⟨indexBody, hindex, hwhole, -⟩ := loadable.index
  obtain ⟨t, htree⟩ := loadable.tree
  obtain ⟨summary, hsummary⟩ := loadable.summary
  obtain ⟨opened, hopen, -⟩ := exists_open_of_stores hlog hindex hwhole htree hsummary capacity
  exact ⟨opened, hopen⟩

end

theorem Unchanged.asOpened {opened s : Segment} (unchanged : Unchanged fs opened s) :
    AsOpened opened s :=
  ⟨unchanged.index, unchanged.gate⟩

/-- A segment with four files that can be opened is opened whatever the file of its filter holds,
and after any reads a search for any key comes to its end and fails with an error of the format if
it does. Only if that file holds the bytes of a filter without bits every search crashes. -/
theorem searched_with_any_filter (fs : FileSystem) (base : Path) (table : TableName)
    (number : UInt64) (config : Config)
    (loadable : Loadable fs (SegmentPaths.ofNumber table base number))
    (capacity : config.cacheCapacity ≤ RecentKeys.maxCapacity) :
    ∃ opened, open? fs base table number config = .ok opened ∧
      ∀ s, Reached fs opened s → ∀ key,
        (Bitless fs (SegmentPaths.ofNumber table base number) config →
          (checkedTuplesOf fs key).run.run s = throw .panic ∧
            ((tuplesOf fs key).run.run s).1 = .error .aborted) ∧
        (¬ Bitless fs (SegmentPaths.ofNumber table base number) config →
          (checkedTuplesOf fs key).run.run s = pure ((tuplesOf fs key).run.run s) ∧
            ∀ failure, ((tuplesOf fs key).run.run s).1 = .error failure →
              ∃ cause, failure = .error cause ∧ cause.isFormat = true) := by
  obtain ⟨opened, hopen⟩ := loadable.exists_open capacity
  refine ⟨opened, hopen, fun s reached key => ?_⟩
  have same : AsOpened opened s :=
    ((unchanged_of_open hopen opened.gate).of_reached reached).asOpened
  constructor
  · intro bitless
    have hnone := (passes_eq_none_iff hopen key).mpr bitless
    have probing := probing_of_open hopen
    rw [← same.gate] at hnone probing
    exact crash_of_tuplesOf probing hnone
  · intro hnot
    obtain ⟨passes, hpasses⟩ :=
      Option.ne_none_iff_exists'.mp (mt (passes_eq_none_iff hopen key).mp hnot)
    obtain ⟨logBytes, indexBytes, log, index⟩ := loadable.runs hopen
    have ends := endsAs_tuplesOf log index (probing_of_open hopen) hpasses
    exact ⟨ends.run_eq s same, ends.format s same⟩

/-- The files of one tuple, with any file for the filter. -/
theorem exists_loadable (filter : Bytes) :
    ∃ fs : FileSystem,
      let files := SegmentPaths.ofNumber ⟨"g", "t", none, by decide, by decide⟩ ⟨"db"⟩ 1
      Loadable fs files ∧ fs.Stores files.filter filter := by
  have sound := RTree.sound_empty 2 (by decide)
  have himage : (RTree.empty 2 (by decide)).image.2 = .ok () := by
    rw [(sound.storable_of_size (by decide) (by decide)).image_eq]
  obtain ⟨t, htree, -⟩ := sound.exists_ofBytes himage
  let summary : Summary := ⟨1, 1, 1, 3, Box.fullSpace⟩
  have hsummary := Summary.ofBytes_toBytes (s := summary) (by decide) []
  rw [List.append_nil] at hsummary
  obtain ⟨fs, hlog, hindex, hspatial, hfilter, hstored⟩ := exists_stores_empty
    (FileFormat.tupleLog.magic ++ Record.stored ⟨"a", Box.fullSpace, [7], 1, 3⟩)
    (FileFormat.keyIndex.magic ++ Word.big 4 10) (RTree.empty 2 (by decide)).image.1 filter
    summary.toBytes
  refine ⟨fs, ⟨⟨_, hlog, by decide⟩, ⟨_, hindex, by decide, by decide⟩, ⟨t, ?_⟩, ⟨summary, ?_⟩⟩,
    hfilter⟩
  · rw [RTree.load, hspatial.read]
    exact mapError_eq_ok.mpr htree
  · rw [loadSummary, hstored.read]
    exact mapError_eq_ok.mpr hsummary

/-- A file of three bytes is no filter: the segment is searched without one. -/
theorem searched_with_any_filter_short :
    ∃ fs opened, Loadable fs
        (SegmentPaths.ofNumber ⟨"g", "t", none, by decide, by decide⟩ ⟨"db"⟩ 1) ∧
      Config.default.cacheCapacity ≤ RecentKeys.maxCapacity ∧
      open? fs ⟨"db"⟩ ⟨"g", "t", none, by decide, by decide⟩ 1 Config.default = .ok opened ∧
      (checkedTuplesOf fs "a").run.run opened = pure ((tuplesOf fs "a").run.run opened) := by
  obtain ⟨fs, loadable, hfilter⟩ := exists_loadable [1, 2, 3]
  have capacity : Config.default.cacheCapacity ≤ RecentKeys.maxCapacity := by decide
  obtain ⟨opened, hopen, hsearch⟩ := searched_with_any_filter fs ⟨"db"⟩
    ⟨"g", "t", none, by decide, by decide⟩ 1 Config.default loadable capacity
  refine ⟨fs, opened, loadable, capacity, hopen, ((hsearch opened .opened "a").2 ?_).1⟩
  rintro ⟨-, f, storable, -, hread⟩
  have hbytes := Except.ok.inj (hfilter.read.symm.trans hread)
  have hlength := congrArg List.length hbytes
  rw [Filter.length_toBytes storable, Filter.headerLen] at hlength
  change 3 = _ at hlength
  omega

/-- The header of a filter without bits and with one probe is accepted, and a search crashes. -/
theorem crash_with_filter_without_bits :
    ∃ fs opened,
      let files := SegmentPaths.ofNumber ⟨"g", "t", none, by decide, by decide⟩ ⟨"db"⟩ 1
      Loadable fs files ∧
      fs.read files.filter = .ok (1 :: Word.little 8 0 ++ Word.little 4 1 ++ List.replicate 32 0) ∧
      open? fs ⟨"db"⟩ ⟨"g", "t", none, by decide, by decide⟩ 1 Config.default = .ok opened ∧
      (checkedTuplesOf fs "a").run.run opened = throw .panic := by
  obtain ⟨fs, loadable, hfilter⟩ :=
    exists_loadable (Filter.toBytes ⟨List.replicate 32 0, 1, #[]⟩)
  have capacity : Config.default.cacheCapacity ≤ RecentKeys.maxCapacity := by decide
  obtain ⟨opened, hopen⟩ := loadable.exists_open capacity
  have storable : Filter.Storable ⟨List.replicate 32 0, 1, #[]⟩ :=
    ⟨rfl, by decide, by decide, by decide⟩
  have hnone := (passes_eq_none_iff hopen "a").mpr ⟨rfl, _, storable, rfl, hfilter.read⟩
  exact ⟨fs, opened, loadable, hfilter.read, hopen,
    (crash_of_tuplesOf (probing_of_open hopen) hnone).1⟩

end Segment

end SpatialSegment
