import SpatialSegment.Proofs.Log.Scan
import SpatialSegment.Proofs.Segment.Agreement
import SpatialSegment.Proofs.Segment.Leftovers
import SpatialSegment.Proofs.Tuple.Stream

/-!
# A scan and a search agree

A segment finds tuples in two ways: by reading its log from the front and by halving its key index.
The first tuple of a search is the one a scan finds, for every key, and a scan finds none where a
search finds none. The file of a filter can come between the two. Where one was left that the
segment did not write, a search asks it and a scan does not.
-/

namespace SpatialSegment

namespace Segment

variable {fs fs' : FileSystem} {files : SegmentPaths} {order : List Tuple}

/-- The log of a segment can be scanned by a reader in either mode. -/
theorem Indexed.exists_scan (indexed : Indexed fs files order)
    (ordered : KeySearch.Ordered (order.map Tuple.key)) (mode : ReadMode) :
    ∃ log : Log, (Log.new files.log mode).file.init fs = (.ok (), log.file) ∧
      ∀ key, log.scan fs key = .ok (order.find? fun t => t.key = key) := by
  have hstores : fs.Stores files.log
      (FileFormat.tupleLog.magic ++ order.flatMap Record.stored ++ []) := by
    rw [List.append_nil]
    exact indexed.log
  obtain ⟨log, hinit, hscan⟩ := Log.exists_scan hstores indexed.recorded.fits ordered
    indexed.recorded.length_log_lt mode
  exact ⟨log, hinit, fun key => hscan key (.inl rfl)⟩

/-- The filter is of the tuples, or there is none, unless one was there and none has been
written. -/
theorem FilterLeft.filterWritten {path : Path} {useFilter : Bool}
    (left : FilterLeft path order useFilter fs fs')
    (h : useFilter = true ∨ fs.contentAt path.location = none) : FilterWritten fs' path order := by
  cases huse : useFilter with
  | true => exact .inr (left.stored huse)
  | false =>
    have hnone := h.resolve_left (Bool.eq_false_iff.mp huse)
    exact .inl (FileSystem.contentAt_eq_none_iff.mp ((left.kept huse).trans hnone))

/-- A filter of the tuples changes no answer. -/
theorem guard_of_written (written : FilterWritten fs files.filter order) (useFilter : Bool)
    (key : String) :
    (if useFilter then loadGate fs files.filter else Gate.absent).guard key
        (order.filter fun t => t.key = key) = .ok (order.filter fun t => t.key = key) := by
  obtain ⟨passes, hpasses, hstopped⟩ := gate_of_written written useFilter key
  refine Gate.guard_eq_ok ⟨passes, hpasses, fun hfalse => List.filter_eq_nil_iff.mpr ?_⟩
  intro t ht hkey
  exact hstopped hfalse t ht (of_decide_eq_true hkey)

/-- In a log of tuples that are sorted by key, with anything behind their records, a scan finds the
first tuple with a key, and none if there is none, as long as one of the keys is not before it or
nothing is behind the records. After a write without an error over files that were left, each of
them at one location only, a scan of the log finds the first of the tuples that were given with a
key, and a search of the opened segment, after any reads, finds all of them behind the gate of its
reader. The gate makes no difference if the reader has none, if the writer has written its file and
if no such file was left: then the scan finds the first tuple of the search, and none exactly if the
search finds none. There must be room for the cache. -/
theorem scan_agrees_with_search (tuples : List Tuple) (mode : ReadMode) :
    (∀ (fs : FileSystem) (path : Path) (records tail : Bytes),
      (tuples.forM Record.append).run.run [] = (.ok (), records) →
      KeySearch.Ordered (tuples.map Tuple.key) →
      fs.Stores path (FileFormat.tupleLog.magic ++ records ++ tail) →
      (FileFormat.tupleLog.magic ++ records).length < View.signedLimit →
      ∃ log : Log, (Log.new path mode).file.init fs = (.ok (), log.file) ∧
        ∀ key, tail = [] ∨ (∃ t ∈ tuples, Text.NotAfter key t.key) →
          log.scan fs key = .ok (tuples.find? fun t => t.key = key)) ∧
    ∀ (base : Path) (table : TableName) (number : UInt64) (writer reader : Config) (seed : Bytes)
      (fs fs' : FileSystem) (files : SegmentPaths), seed.length = 32 →
      (∀ p ∈ (SegmentPaths.ofNumber table base number).toList, fs.Alone p.location) →
      (write base table number writer seed tuples).run.run fs = (.ok files, fs') →
      (RecentKeys.maxCapacity < reader.cacheCapacity →
        open? fs' base table number reader = .error .aborted) ∧
      ∃ log : Log, (Log.new files.log mode).file.init fs' = (.ok (), log.file) ∧
        (∀ key, log.scan fs' key = .ok (tuples.filter fun t => t.key = key).head?) ∧
        (reader.cacheCapacity ≤ RecentKeys.maxCapacity →
          ∃ opened, open? fs' base table number reader = .ok opened ∧
            ∀ s, Reached fs' opened s → ∀ key,
              let found := tuples.filter fun t => t.key = key
              ((tuplesOf fs' key).run.run s).1 =
                  (if reader.useFilter then loadGate fs' files.filter else Gate.absent).guard key
                    found ∧
                ((reader.useFilter = false ∨ writer.useFilter = true ∨
                    fs.contentAt files.filter.location = none) →
                  ((tuplesOf fs' key).run.run s).1 = .ok found)) := by
  constructor
  · intro fs path records tail written ordered stores small
    obtain ⟨storable, rfl⟩ := Record.run_append_all_iff.mp written
    rw [List.nil_append] at stores small
    exact Log.exists_scan stores (fun t ht => (storable t ht).toFits) ordered small mode
  · intro base table number writer reader seed fs fs' files full alone written
    obtain ⟨rfl, indexed, left⟩ := indexed_of_write full alone written
    have hsorted := sortedByKey_sorted tuples
    refine ⟨indexed.open_aborted, ?_⟩
    obtain ⟨log, hinit, hscan⟩ := indexed.exists_scan hsorted.ordered mode
    refine ⟨log, hinit, fun key => ?_, fun capacity => ?_⟩
    · rw [hscan key, ← List.head?_filter, hsorted.stable]
    · obtain ⟨opened, hopen, hguarded⟩ := indexed.exists_guarded hsorted.ordered capacity
      refine ⟨opened, hopen, fun s reached key => ?_⟩
      have hsearch := hguarded s reached key
      rw [hsorted.stable] at hsearch
      refine ⟨hsearch, fun harmless => hsearch.trans ?_⟩
      rcases harmless with hreader | hfilter
      · rw [hreader]
        rfl
      · have h := guard_of_written (left.filterWritten hfilter) reader.useFilter key
        rwa [hsorted.stable] at h

/-- A scan stops before the byte behind three records, two of them with one key. Of two tuples that
were written without a filter, a scan and a search find the same. -/
theorem scan_agrees_with_search_two :
    let first : Tuple := ⟨"b", Box.fullSpace, [1], 1, 3⟩
    let second : Tuple := ⟨"b", Box.fullSpace, [2], 2, 4⟩
    let last : Tuple := ⟨"d", Box.fullSpace, [], 5, 6⟩
    let early : Tuple := ⟨"a", Box.fullSpace, [7], 1, 3⟩
    let late : Tuple := ⟨"b", ⟨[⟨⟨0⟩, ⟨0x3ff0000000000000⟩, by decide⟩]⟩, [], 2, 4⟩
    (∃ (fs : FileSystem) (records : Bytes) (log : Log),
      ([first, second, last].forM Record.append).run.run [] = (.ok (), records) ∧
      fs.Stores ⟨"x.sst"⟩ (FileFormat.tupleLog.magic ++ records ++ [255]) ∧
      (Log.new ⟨"x.sst"⟩ .buffered).file.init fs = (.ok (), log.file) ∧
      log.scan fs "b" = .ok (some first) ∧ log.scan fs "c" = .ok none) ∧
    ∃ (fs' : FileSystem) (files : SegmentPaths) (opened : Segment) (log : Log),
      (write ⟨"db"⟩ ⟨"g", "t", none, by decide, by decide⟩ 1 ⟨0, .buffered, false, 0.01, 2⟩
        (List.replicate 32 0) [late, early]).run.run FileSystem.empty = (.ok files, fs') ∧
      open? fs' ⟨"db"⟩ ⟨"g", "t", none, by decide, by decide⟩ 1 Config.default = .ok opened ∧
      (Log.new files.log .mapped).file.init fs' = (.ok (), log.file) ∧
      log.scan fs' "b" = .ok (some late) ∧
      ((tuplesOf fs' "b").run.run opened).1 = .ok [late] := by
  intro first second last early late
  constructor
  · have storable : ∀ t ∈ [first, second, last], Record.Storable t := by
      intro t ht
      simp only [List.mem_cons, List.not_mem_nil, or_false] at ht
      rcases ht with rfl | rfl | rfl <;> exact ⟨⟨by decide, by decide, by decide⟩, by decide⟩
    have written : ([first, second, last].forM Record.append).run.run [] =
        (.ok (), [first, second, last].flatMap Record.stored) :=
      Record.run_append_all_iff.mpr ⟨storable, rfl⟩
    have hwrite : (FileSystem.empty.write ⟨"x.sst"⟩ []).isOk = true := by decide +kernel
    have stores := (((FileSystem.vacant_empty _).room_of_isOk hwrite).adds
      (FileFormat.tupleLog.magic ++ [first, second, last].flatMap Record.stored ++ [255])).new
    obtain ⟨scanned, -⟩ := scan_agrees_with_search [first, second, last] .buffered
    obtain ⟨log, hinit, hscan⟩ := scanned _ ⟨"x.sst"⟩ _ [255] written
      (by unfold KeySearch.Ordered Text.NotAfter; decide +kernel) stores (by decide +kernel)
    have hlast (key : String) (h : Text.NotAfter key "d") :
        ∃ t ∈ [first, second, last], Text.NotAfter key t.key :=
      ⟨last, by simp, h⟩
    refine ⟨_, _, log, written, stores, hinit, ?_, ?_⟩
    · exact hscan "b" (.inr (hlast "b" (by unfold Text.NotAfter; decide +kernel)))
    · exact hscan "c" (.inr (hlast "c" (by unfold Text.NotAfter; decide +kernel)))
  · obtain ⟨fs', hwrite⟩ := exists_write_two 0 .buffered 0.01 (List.replicate 32 0)
    obtain ⟨-, searched⟩ := scan_agrees_with_search [late, early] .mapped
    obtain ⟨-, log, hinit, hscan, hsearch⟩ := searched ⟨"db"⟩
      ⟨"g", "t", none, by decide, by decide⟩ 1 ⟨0, .buffered, false, 0.01, 2⟩ Config.default
      (List.replicate 32 0) FileSystem.empty fs' _ List.length_replicate
      (fun p _ => (FileSystem.vacant_empty p.location).alone) hwrite
    obtain ⟨opened, hopen, hfound⟩ := hsearch (by decide)
    have vacant := FileSystem.contentAt_eq_none_iff.mpr (FileSystem.vacant_empty
      (SegmentPaths.ofNumber ⟨"g", "t", none, by decide, by decide⟩ ⟨"db"⟩ 1).filter.location)
    exact ⟨fs', _, opened, log, hwrite, hopen, hinit, hscan "b",
      (hfound opened .opened "b").2 (.inr (.inr vacant))⟩

/-- Behind the gate of a filter that was left, a search does not find the tuple that a scan finds.
-/
theorem scanned_not_found_behind_gate :
    let table : TableName := ⟨"g", "t", none, by decide, by decide⟩
    let files := SegmentPaths.ofNumber table ⟨"db"⟩ 1
    ∃ (left : FileSystem) (opened : Segment) (log : Log),
      (write ⟨"db"⟩ table 1 ⟨0, .buffered, false, 0.01, 2⟩ (List.replicate 32 0)
        [⟨"b", ⟨[⟨⟨0⟩, ⟨0x3ff0000000000000⟩, by decide⟩]⟩, [], 2, 4⟩,
          ⟨"a", Box.fullSpace, [7], 1, 3⟩]).run.run leftDirectory = (.ok files, left) ∧
      open? left ⟨"db"⟩ table 1 Config.default = .ok opened ∧
      (Log.new files.log .mapped).file.init left = (.ok (), log.file) ∧
      log.scan left "a" = .ok (some ⟨"a", Box.fullSpace, [7], 1, 3⟩) ∧
      ((tuplesOf left "a").run.run opened).1 = .ok [] := by
  intro table files
  obtain ⟨left, hrun⟩ := exists_write_over (List.replicate 32 0)
  obtain ⟨-, indexed, kept⟩ := indexed_of_write List.length_replicate
    (fun p _ => alone_leftDirectory p.location) hrun
  have hsorted := sortedByKey_sorted
    [⟨"b", ⟨[⟨⟨0⟩, ⟨0x3ff0000000000000⟩, by decide⟩]⟩, [], 2, 4⟩, ⟨"a", Box.fullSpace, [7], 1, 3⟩]
  obtain ⟨log, hinit, hscan⟩ := indexed.exists_scan hsorted.ordered .mapped
  have capacity : Config.default.cacheCapacity ≤ RecentKeys.maxCapacity := by decide
  obtain ⟨opened, hopen, hguarded⟩ := indexed.exists_guarded hsorted.ordered capacity
  have hgate : loadGate left files.filter = ⟨some leftFilter⟩ := by
    rw [loadGate_of_leads indexed.leads_filter, kept.kept rfl, contentAt_leftDirectory]
    simp only [Gate.ofContent, Gate.ofBytes_of_storable storable_leftFilter]
    rfl
  have hstopped : leftFilter.contains? "a" = some false :=
    leftFilter.containsWith?_of_clear (by decide) (by decide)
      (fun b hb => by simpa [leftFilter] using hb) "a"
  refine ⟨left, opened, log, hrun, hopen, hinit, ?_, (hguarded opened .opened "a").trans ?_⟩
  · rw [hscan "a", ← List.head?_filter, hsorted.stable]
    rfl
  · rw [if_pos (show Config.default.useFilter = true from rfl), hgate]
    exact Gate.guard_of_stopped hstopped

end Segment

end SpatialSegment
