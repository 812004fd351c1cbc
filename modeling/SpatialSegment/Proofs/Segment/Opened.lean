import SpatialSegment.Segment
import SpatialSegment.Proofs.KeyIndex.Exact
import SpatialSegment.Proofs.Segment.Written
import SpatialSegment.Proofs.Summary.Drafts

/-!
# Opening what has been written

A segment serves tuples when its index and log hold them, its cache is faithful, its spatial index
answers regions with their entries and its gate stops none of their keys. A segment that is opened
on written files serves the tuples that were written.
-/

namespace SpatialSegment

namespace Segment

/-- What the reads of a segment rely on. -/
structure Serves (fs : FileSystem) (order : List Tuple) (s : Segment) : Prop where
  index : s.index.index.Holds fs order
  cache : s.index.index.FaithfulCache fs s.index.cache
  tree : ∀ region, (s.tree.query region).Perm
    ((spatialEntries order (recordOffsets FileFormat.bodyStart order)).filter
      fun e => e.box.intersects region)
  gate : ∀ key, ∃ passes, s.gate.passes? key = some passes ∧
    (passes = false → ∀ t ∈ order, t.key ≠ key)
  summary : s.summary.tuples.toNat = order.length

variable {fs : FileSystem} {files : SegmentPaths} {order : List Tuple}

/-- The gate stops no key that was written, whether it is looked for or not. -/
theorem gate_of_written (written : FilterWritten fs files.filter order) (useFilter : Bool)
    (key : String) :
    ∃ passes, (if useFilter then loadGate fs files.filter else Gate.absent).passes? key =
      some passes ∧ (passes = false → ∀ t ∈ order, t.key ≠ key) := by
  have absent : ∃ passes, Gate.absent.passes? key = some passes ∧
      (passes = false → ∀ t ∈ order, t.key ≠ key) :=
    ⟨true, rfl, fun h => by cases h⟩
  cases useFilter with
  | false => exact absent
  | true =>
    rw [if_pos rfl, loadGate]
    rcases written with vacant | ⟨f, hstorable, hsize, hkeys, hstores⟩
    · obtain ⟨cause, hread⟩ := vacant.read
      rw [hread]
      exact absent
    · rw [hstores.read]
      simp only [Gate.ofBytes_of_storable hstorable]
      refine ⟨_, Filter.containsWith?_eq hsize key, ?_⟩
      intro hstopped t ht hkey
      have hpasses := hkeys t ht
      rw [hkey, Filter.contains?, Filter.containsWith?_eq hsize key, hstopped] at hpasses
      cases hpasses

theorem Indexed.exists_load (indexed : Indexed fs files order) :
    ∃ t : RTree, RTree.load fs files.spatialIndex = .ok t ∧
      (∀ region, (t.query region).Perm
        ((spatialEntries order (recordOffsets FileFormat.bodyStart order)).filter
          fun e => e.box.intersects region)) ∧
      t.entries.Perm (spatialEntries order (recordOffsets FileFormat.bodyStart order)) := by
  obtain ⟨t, sound, hentries, himage, hstores⟩ := indexed.tree
  obtain ⟨t', hread, hquery, hentries'⟩ := sound.exists_ofBytes himage
  refine ⟨t', ?_, fun region => ?_, hentries'.trans hentries⟩
  · rw [RTree.load, hstores.read]
    exact mapError_eq_ok.mpr hread
  · rw [hquery region]
    exact (sound.query_perm region).trans (hentries.filter _)

/-- The summary that is loaded is that of the tuples. -/
theorem Indexed.exists_summary (indexed : Indexed fs files order) :
    ∃ summary : Summary, summary.Summarizes order ∧
      loadSummary fs files.summary = .ok summary := by
  obtain ⟨summary, hof, hstores⟩ := indexed.summary
  have hsummarizes := Summary.summarizes_of_ofTuples hof
  have hdimension : summary.box.dimension ≤ Word.maxSigned32 := by
    refine hsummarizes.dimension_le fun t ht => ?_
    have hle := (indexed.recorded.storable t ht).box_le
    rw [Box.storedLen] at hle
    rw [Box.dimension]
    omega
  have hmax : Word.maxSigned32 = 2147483647 := rfl
  have hlimit : Word.limit 8 = 18446744073709551616 := rfl
  have hread := Summary.ofBytes_toBytes (s := summary) (by
    rw [Box.length_coords]
    omega) []
  rw [List.append_nil] at hread
  refine ⟨summary, hsummarizes, ?_⟩
  rw [loadSummary, hstores.read]
  exact mapError_eq_ok.mpr hread

theorem Indexed.exists_loadSummary (indexed : Indexed fs files order) :
    ∃ summary, loadSummary fs files.summary = .ok summary ∧
      summary.tuples.toNat = order.length := by
  obtain ⟨summary, hsummarizes, hload⟩ := indexed.exists_summary
  refine ⟨summary, hload, ?_⟩
  have hle := indexed.recorded.length_le
  rw [hsummarizes.count,
    UInt64.toNat_ofNat_of_lt' (Nat.lt_of_le_of_lt hle (by decide))]

theorem exists_activate (fs : FileSystem) {x : CachedIndex} (hnone : x.cache = none)
    {capacity : Nat} (h : capacity ≤ RecentKeys.maxCapacity) :
    ∃ cache, x.activate capacity = .ok { x with cache } ∧
      x.index.FaithfulCache fs cache := by
  by_cases hzero : capacity = 0
  · refine ⟨none, ?_, KeyIndex.faithfulCache_none fs _⟩
    rw [CachedIndex.activate, if_pos hzero, ← hnone]
  · obtain ⟨c, hc⟩ : ∃ c, RecentKeys.ofCapacity? capacity = some c := by
      rw [RecentKeys.ofCapacity?, dif_pos ⟨by omega, h⟩]
      exact ⟨_, rfl⟩
    refine ⟨some c, ?_, fun c' hc' => ?_⟩
    · rw [CachedIndex.activate, if_neg hzero]
      simp only [hc, hnone]
    · cases hc'
      exact RecentKeys.faithful_empty hc

section

variable {base : Path} {table : TableName} {number : UInt64} {logBody indexBody : Bytes}

/-- Log and key index start on files of their formats. -/
theorem exists_start
    (log : fs.Stores (SegmentPaths.ofNumber table base number).log
      (FileFormat.tupleLog.magic ++ logBody))
    (index : fs.Stores (SegmentPaths.ofNumber table base number).keyIndex
      (FileFormat.keyIndex.magic ++ indexBody))
    (whole : indexBody.length % 4 = 0) (mode : ReadMode) :
    ∃ logFile indexFile : GuardedFile,
      (Log.new (SegmentPaths.ofNumber table base number).log mode).file.init fs =
        (.ok (), logFile) ∧
      (CachedIndex.new (SegmentPaths.ofNumber table base number).keyIndex mode ⟨logFile⟩).init fs =
        (.ok (), ⟨⟨indexFile, none⟩, ⟨logFile⟩, none⟩) ∧
      logFile.Shows fs (FileFormat.tupleLog.magic ++ logBody) ∧
      indexFile.Shows fs (FileFormat.keyIndex.magic ++ indexBody) := by
  obtain ⟨logFile, hlogInit, hlogShows, -⟩ :=
    GuardedFile.exists_init log (fun n hn => by cases hn) mode
  obtain ⟨indexFile, hindexInit, hindexShows, -⟩ :=
    GuardedFile.exists_init index (fun n hn => by
      cases hn
      exact whole) mode
  refine ⟨logFile, indexFile, hlogInit, ?_, hlogShows, hindexShows⟩
  simp only [CachedIndex.init, CachedIndex.new, SharedFile.init, SharedFile.new, hindexInit]

/-- A segment can be opened, in either mode and with a cache of any capacity that there is room for,
if log and key index have their formats and spatial index and summary can be loaded. -/
theorem exists_open_of_stores {config : Config} {t : RTree} {summary : Summary}
    (log : fs.Stores (SegmentPaths.ofNumber table base number).log
      (FileFormat.tupleLog.magic ++ logBody))
    (index : fs.Stores (SegmentPaths.ofNumber table base number).keyIndex
      (FileFormat.keyIndex.magic ++ indexBody))
    (whole : indexBody.length % 4 = 0)
    (tree : RTree.load fs (SegmentPaths.ofNumber table base number).spatialIndex = .ok t)
    (loaded : loadSummary fs (SegmentPaths.ofNumber table base number).summary = .ok summary)
    (capacity : config.cacheCapacity ≤ RecentKeys.maxCapacity) :
    ∃ s, open? fs base table number config = .ok s ∧
      s.index.log.file.Shows fs (FileFormat.tupleLog.magic ++ logBody) ∧
      s.index.shared.file.Shows fs (FileFormat.keyIndex.magic ++ indexBody) ∧
      s.index.index.FaithfulCache fs s.index.cache ∧ s.tree = t ∧ s.summary = summary ∧
      s.gate = (if config.useFilter
        then loadGate fs (SegmentPaths.ofNumber table base number).filter else Gate.absent) := by
  obtain ⟨logFile, indexFile, hlogInit, hindexInit, hlog, hindex⟩ :=
    exists_start log index whole config.mode
  obtain ⟨cache, hactivate, hfaithful⟩ :=
    exists_activate fs (x := ⟨⟨indexFile, none⟩, ⟨logFile⟩, none⟩) rfl capacity
  refine ⟨⟨table, number, SegmentPaths.ofNumber table base number,
    ⟨⟨indexFile, none⟩, ⟨logFile⟩, cache⟩, t, if config.useFilter
      then loadGate fs (SegmentPaths.ofNumber table base number).filter else Gate.absent,
    summary, ReadCounts.zero, Usage.none⟩, ?_, hlog, hindex, hfaithful, rfl, rfl, rfl⟩
  rw [open?]
  simp only [hlogInit, hindexInit, hactivate, tree, loaded]
  rfl

/-- A key index that has been written holds whole records. -/
theorem length_offsets_mod (order : List Tuple) :
    ((recordOffsets FileFormat.bodyStart order).flatMap (Word.big 4)).length % 4 = 0 := by
  rw [length_flatMap_const (Word.length_big 4)]
  omega

/-- The four files of tuples can be opened, in either mode, with a cache of any capacity that there
is room for. Reads rely on the gate besides, which is left open here. -/
theorem Indexed.exists_open {reader : Config}
    (indexed : Indexed fs (SegmentPaths.ofNumber table base number) order)
    (capacity : reader.cacheCapacity ≤ RecentKeys.maxCapacity) :
    ∃ s, open? fs base table number reader = .ok s ∧
      Serves fs order { s with gate := Gate.absent } ∧ s.gate = (if reader.useFilter
        then loadGate fs (SegmentPaths.ofNumber table base number).filter else Gate.absent) := by
  obtain ⟨t, htree, hquery, -⟩ := indexed.exists_load
  obtain ⟨summary, hsummary, hcount⟩ := indexed.exists_loadSummary
  obtain ⟨s, hopen, hlog, hindex, hfaithful, rfl, rfl, hgate⟩ := exists_open_of_stores indexed.log
    indexed.index (length_offsets_mod order) htree hsummary capacity
  have hpasses : ∀ key, ∃ passes, Gate.absent.passes? key = some passes ∧
      (passes = false → ∀ t ∈ order, t.key ≠ key) :=
    fun key => ⟨true, rfl, fun h => by cases h⟩
  exact ⟨s, hopen, ⟨⟨hindex, hlog, indexed.recorded⟩, hfaithful, hquery, hpasses, hcount⟩, hgate⟩

/-- A segment that has been written can be opened, with and without a filter. -/
theorem Written.exists_open {reader : Config}
    (written : Written fs (SegmentPaths.ofNumber table base number) order)
    (capacity : reader.cacheCapacity ≤ RecentKeys.maxCapacity) :
    ∃ s, open? fs base table number reader = .ok s ∧ Serves fs order s := by
  obtain ⟨s, hopen, serves, hgate⟩ := written.toIndexed.exists_open capacity
  refine ⟨s, hopen, serves.index, serves.cache, serves.tree, fun key => ?_, serves.summary⟩
  rw [hgate]
  exact gate_of_written written.filter reader.useFilter key

/-- With a cache that there is no room for opening breaks off. -/
theorem Indexed.open_aborted {reader : Config}
    (indexed : Indexed fs (SegmentPaths.ofNumber table base number) order)
    (capacity : RecentKeys.maxCapacity < reader.cacheCapacity) :
    open? fs base table number reader = .error .aborted := by
  obtain ⟨log, index, hlogInit, hindexInit, -⟩ :=
    exists_start indexed.log indexed.index (length_offsets_mod order) reader.mode
  have hactivate : (CachedIndex.mk ⟨index, none⟩ ⟨log⟩ none).activate reader.cacheCapacity =
      .error .aborted := by
    have hroom : RecentKeys.ofCapacity? reader.cacheCapacity = none := by
      rw [RecentKeys.ofCapacity?, dif_neg fun h => by omega]
    rw [CachedIndex.activate, if_neg (by omega), hroom]
  rw [open?]
  simp only [hlogInit, hindexInit, hactivate]
  rfl

end

end Segment

end SpatialSegment
