import SpatialSegment.Proofs.Log.Offsets
import SpatialSegment.Proofs.Segment.Opened
import SpatialSegment.Proofs.Segment.Success

/-!
# The files of a segment agree

Log, key index and spatial index are written one after another. What ties them together is the list
of offsets noted along the log: the log is a chain of whole records at these offsets, the key index
is the list itself, and the spatial index has the boxes with the offsets of their own tuples, though
tuples without a place in it are left out.
-/

namespace SpatialSegment

namespace Segment

variable {fs : FileSystem} {files : SegmentPaths} {order tuples : List Tuple}

/-- Records written one behind the other are a chain up to the end of the bytes. -/
theorem chain_recordOffsets (fits : ∀ t ∈ tuples, Record.Fits t) (before : Bytes) :
    Record.Chain (before ++ tuples.flatMap Record.stored) before.length
      (recordOffsets before.length tuples) (before ++ tuples.flatMap Record.stored).length := by
  induction tuples generalizing before with
  | nil =>
    rw [List.flatMap_nil, List.append_nil]
    exact .done _
  | cons t tuples ih =>
    obtain ⟨hfits, fits⟩ := List.forall_mem_cons.mp fits
    have hrest := ih fits (before ++ Record.stored t)
    rw [List.length_append, Record.length_stored, List.append_assoc] at hrest
    exact .record (Record.announcedAt_stored hfits before _) hrest

/-- Each record has the length that its tuple needs. -/
theorem announcedAt_recordOffsets (fits : ∀ t ∈ tuples, Record.Fits t) (before : Bytes)
    {i o : Nat} {t : Tuple} (ht : tuples[i]? = some t)
    (ho : (recordOffsets before.length tuples)[i]? = some o) :
    Record.announcedAt (before ++ tuples.flatMap Record.stored) o = .ok (Record.storedLen t) := by
  rw [getElem?_recordOffsets ht, ← List.length_append] at ho
  cases ho
  rw [flatMap_at ht, List.append_assoc, ← List.append_assoc before]
  exact Record.announcedAt_stored (fits t (List.mem_of_getElem? ht)) _ _

theorem spatialEntries_eq (order : List Tuple) (offsets : List Nat) :
    spatialEntries order offsets =
      ((order.zip offsets).filter fun r => !r.1.box.isFullSpace).map fun r => ⟨r.1.box, r.2⟩ := by
  rw [spatialEntries]
  induction order.zip offsets with
  | nil => rfl
  | cons r rest ih =>
    rw [List.filterMap_cons, List.filter_cons, ih]
    cases hfull : r.1.box.isFullSpace with
    | true => simp [hfull]
    | false => simp [hfull]

theorem Recorded.fits (recorded : Recorded FileFormat.bodyStart order) :
    ∀ t ∈ order, Record.Fits t :=
  fun t ht => (recorded.storable t ht).toFits

/-- The log is not longer than a file can be. -/
theorem Recorded.length_log_lt (recorded : Recorded FileFormat.bodyStart order) :
    (FileFormat.tupleLog.magic ++ order.flatMap Record.stored).length < View.signedLimit := by
  have chain := chain_recordOffsets recorded.fits FileFormat.tupleLog.magic
  rw [FileFormat.length_magic] at chain
  have hlt := chain.stop_lt (by decide) recorded.offset_le
  have hmost : Word.maxSigned32 + 2 * Word.limit 4 < View.signedLimit := by decide
  exact hlt.trans hmost

/-- The readers of log and key index start on the files, and tell the offsets and the tuples. -/
theorem Indexed.exists_readers {base : Path} {table : TableName} {number : UInt64}
    (indexed : Indexed fs (SegmentPaths.ofNumber table base number) order) (mode : ReadMode) :
    let offsets := recordOffsets FileFormat.bodyStart order
    ∃ (log : Log) (index : CachedIndex),
      (Log.new (SegmentPaths.ofNumber table base number).log mode).file.init fs =
        (.ok (), log.file) ∧
      (CachedIndex.new (SegmentPaths.ofNumber table base number).keyIndex mode log).init fs =
        (.ok (), index) ∧
      log.offsets fs = .ok offsets ∧ index.index.length = offsets.length ∧
      index.index.offsetsAt fs (List.range offsets.length) = .ok (some offsets) ∧
      ∀ (i o : Nat), offsets[i]? = some o → log.tupleAt fs o = .ok order[i]? := by
  intro offsets
  have hcount : offsets.length = order.length := length_recordOffsets _ _
  obtain ⟨logFile, indexFile, hlogInit, hindexInit, hlogShows, hindexShows⟩ :=
    exists_start indexed.log indexed.index (length_offsets_mod order) mode
  have runs : logFile.Runs fs (FileFormat.tupleLog.magic ++ order.flatMap Record.stored) :=
    GuardedFile.runs_of_init indexed.log indexed.recorded.length_log_lt hlogInit
  have chain := chain_recordOffsets indexed.recorded.fits FileFormat.tupleLog.magic
  have holds : KeyIndex.Holds fs ⟨indexFile, ⟨logFile⟩⟩ order :=
    ⟨hindexShows, hlogShows, indexed.recorded⟩
  have hoffsets : (Log.mk logFile).offsets fs = .ok offsets :=
    (Log.offsets_eq_ok_iff runs).mpr ⟨_, chain, Nat.le_refl _⟩
  refine ⟨⟨logFile⟩, ⟨⟨indexFile, none⟩, ⟨logFile⟩, none⟩, hlogInit, hindexInit, hoffsets,
    holds.length_eq.trans hcount.symm, ?_, ?_⟩
  · have inside : ∀ i ∈ List.range offsets.length, i < offsets.length :=
      fun i hi => List.mem_range.mp hi
    have htold := KeyIndex.offsetsAt_eq (fun i o ho => holds.offsetAt_eq ho) inside
    rwa [filterMap_getElem?_range] at htold
  · intro i o ho
    have hi : i < order.length := hcount ▸ (List.getElem?_eq_some_iff.mp ho).1
    have ht : order[i]? = some order[i] := List.getElem?_eq_getElem hi
    rw [ht]
    exact (holds.exists_record ht ho).1

/-- The files of a write without an error tell one list of offsets. The log is a chain of whole
records at these offsets up to its end, in the order of the keys, each as long as its tuple needs;
its reader finds them again and gives each tuple. The key index is the list. The spatial index, once
loaded, has the boxes of the tuples, without those that are the full space, each with the offset of
its tuple. -/
theorem files_agree_after_write (base : Path) (table : TableName) (number : UInt64)
    (config : Config) (seed : Bytes) (tuples : List Tuple) (fs fs' : FileSystem)
    (files : SegmentPaths) (full : seed.length = 32)
    (new : ∀ p ∈ (SegmentPaths.ofNumber table base number).toList, fs.Vacant p.location)
    (written : (write base table number config seed tuples).run.run fs = (.ok files, fs')) :
    ∃ (order : List Tuple) (offsets : List Nat) (file : Bytes) (tree : RTree),
      SortedByKey tuples order ∧ offsets.length = order.length ∧
      fs'.Stores files.log file ∧ Record.Chain file FileFormat.bodyStart offsets file.length ∧
      (∀ (i o : Nat) t, offsets[i]? = some o → order[i]? = some t →
        Record.announcedAt file o = .ok (Record.storedLen t)) ∧
      RTree.load fs' files.spatialIndex = .ok tree ∧
      tree.entries.Perm
        (((order.zip offsets).filter fun r => !r.1.box.isFullSpace).map fun r => ⟨r.1.box, r.2⟩) ∧
      ∀ mode, ∃ (log : Log) (index : CachedIndex),
        (Log.new files.log mode).file.init fs' = (.ok (), log.file) ∧
        (CachedIndex.new files.keyIndex mode log).init fs' = (.ok (), index) ∧
        log.offsets fs' = .ok offsets ∧ index.index.length = offsets.length ∧
        index.index.offsetsAt fs' (List.range offsets.length) = .ok (some offsets) ∧
        ∀ (i o : Nat), offsets[i]? = some o → log.tupleAt fs' o = .ok order[i]? := by
  obtain ⟨rfl, hwritten⟩ := written_of_write full new written
  have indexed := hwritten.toIndexed
  obtain ⟨tree, hload, -, hentries⟩ := indexed.exists_load
  rw [spatialEntries_eq] at hentries
  have fits := indexed.recorded.fits
  exact ⟨sorted tuples, _, _, tree, sortedByKey_sorted tuples, length_recordOffsets _ _,
    indexed.log, chain_recordOffsets fits FileFormat.tupleLog.magic,
    fun i o t ho ht => announcedAt_recordOffsets fits FileFormat.tupleLog.magic ht ho,
    hload, hentries, indexed.exists_readers⟩

/-- Two tuples have two offsets, which the log tells and the key index holds. -/
theorem files_agree_after_write_two :
    let early : Tuple := ⟨"a", Box.fullSpace, [7], 1, 3⟩
    let late : Tuple := ⟨"b", ⟨[⟨⟨0⟩, ⟨0x3ff0000000000000⟩, by decide⟩]⟩, [], 2, 4⟩
    ∃ (files : SegmentPaths) (fs' : FileSystem) (log : Log) (index : CachedIndex)
      (first second : Nat),
      (write ⟨"db"⟩ ⟨"g", "t", none, by decide, by decide⟩ 1 ⟨0, .buffered, false, 0.01, 2⟩
        (List.replicate 32 0) [late, early]).run.run FileSystem.empty = (.ok files, fs') ∧
      (Log.new files.log .mapped).file.init fs' = (.ok (), log.file) ∧
      (CachedIndex.new files.keyIndex .mapped log).init fs' = (.ok (), index) ∧
      log.offsets fs' = .ok [first, second] ∧
      index.index.offsetsAt fs' [0, 1] = .ok (some [first, second]) := by
  intro early late
  obtain ⟨fs', hwrite⟩ := exists_write_two 0 .buffered 0.01 (List.replicate 32 0)
  obtain ⟨order, offsets, file, tree, hsorted, hlength, -, -, -, -, -, hreaders⟩ :=
    files_agree_after_write ⟨"db"⟩ ⟨"g", "t", none, by decide, by decide⟩ 1
      ⟨0, .buffered, false, 0.01, 2⟩ (List.replicate 32 0) [late, early] FileSystem.empty fs' _ rfl
      (fun p _ => FileSystem.vacant_empty p.location) hwrite
  obtain ⟨log, index, hlog, hindex, hoffsets, -, hindexed, -⟩ := hreaders .mapped
  have htwo : offsets.length = 2 := hlength.trans hsorted.perm.length_eq
  obtain ⟨first, second, rfl⟩ := List.length_eq_two.mp htwo
  exact ⟨_, fs', log, index, first, second, hwrite, hlog, hindex, hoffsets, hindexed⟩

end Segment

end SpatialSegment
