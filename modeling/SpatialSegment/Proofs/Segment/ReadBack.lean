import SpatialSegment.Proofs.Segment.Reads
import SpatialSegment.Proofs.Segment.Success

/-!
# What is written is read back

A segment that has been written without an error, where no files were, is opened and answers every
read from the tuples that were given, in any order of reads and with any settings but a cache that
there is no room for.
-/

namespace SpatialSegment

namespace Segment

/-- The segments that an open one becomes by reads. -/
inductive Reached (fs : FileSystem) (opened : Segment) : Segment → Prop
  | opened : Reached fs opened opened
  | key {s : Segment} (h : Reached fs opened s) (key : String) :
    Reached fs opened ((tuplesOf fs key).run.run s).2
  | region {s : Segment} (h : Reached fs opened s) (region : Box) :
    Reached fs opened ((tuplesIn fs region).run.run s).2
  | ordinal {s : Segment} (h : Reached fs opened s) (ordinal : Nat) :
    Reached fs opened ((tupleAt fs ordinal).run.run s).2

theorem Unchanged.of_reached {fs : FileSystem} {opened s : Segment}
    (unchanged : Unchanged fs opened opened) (h : Reached fs opened s) :
    Unchanged fs opened s := by
  induction h with
  | opened => exact unchanged
  | key _ key ih => exact (answers_loadTuples key _ ih).2
  | region _ region ih => exact (answers_loadRegion region _ ih).2
  | ordinal _ ordinal ih => exact (answers_loadAt ordinal _ ih).2

/-- After a write without an error the segment can be opened, and reads answer: iteration with the
tuples in the order of their keys, a place with its tuple, a key with its tuples, a region with the
tuples whose boxes touch it. -/
theorem read_back_after_write (base : Path) (table : TableName) (number : UInt64)
    (writer reader : Config) (seed : Bytes) (tuples : List Tuple) (fs fs' : FileSystem)
    (files : SegmentPaths) (full : seed.length = 32)
    (new : ∀ p ∈ (SegmentPaths.ofNumber table base number).toList, fs.Vacant p.location)
    (written : (write base table number writer seed tuples).run.run fs = (.ok files, fs'))
    (capacity : reader.cacheCapacity ≤ RecentKeys.maxCapacity) :
    ∃ opened order, open? fs' base table number reader = .ok opened ∧
      SortedByKey tuples order ∧ ∀ s, Reached fs' opened s →
        s.items fs' = order.map .ok ∧
        (∀ ordinal, ((tupleAt fs' ordinal).run.run s).1 = .ok order[ordinal]?) ∧
        (∀ key, ((tuplesOf fs' key).run.run s).1 = .ok (order.filter fun t => t.key = key)) ∧
        (∀ region, ∃ found, ((tuplesIn fs' region).run.run s).1 = .ok found ∧
          found.Perm (tuples.filter fun t => !t.box.isFullSpace && t.box.intersects region)) ∧
        s.summary.tuples.toNat = tuples.length := by
  obtain ⟨rfl, hwritten⟩ := written_of_write full new written
  obtain ⟨opened, hopen, serves⟩ := hwritten.exists_open capacity
  have sorted := sortedByKey_sorted tuples
  refine ⟨opened, _, hopen, sorted, ?_⟩
  intro s hreached
  have serves' := serves.of_unchanged (serves.unchanged.of_reached hreached)
  refine ⟨serves'.items_eq, fun ordinal => ?_, fun key => ?_, fun region => ?_, ?_⟩
  · exact serves'.tupleAt_eq ordinal
  · exact serves'.tuplesOf_eq sorted.ordered key
  · obtain ⟨found, hfound, hperm⟩ := serves'.exists_tuplesIn region
    exact ⟨found, hfound, hperm.trans (sorted.perm.filter _)⟩
  · rw [serves'.summary, sorted.perm.length_eq]

/-- Two tuples, written to an empty file system in one mode, are read in the other mode with filter
and cache. -/
theorem read_back_after_write_two :
    let early : Tuple := ⟨"a", Box.fullSpace, [7], 1, 3⟩
    let late : Tuple := ⟨"b", ⟨[⟨⟨0⟩, ⟨0x3ff0000000000000⟩, by decide⟩]⟩, [], 2, 4⟩
    ∃ files fs' opened,
      (write ⟨"db"⟩ ⟨"g", "t", none, by decide, by decide⟩ 1 ⟨0, .buffered, false, 0.01, 2⟩
        (List.replicate 32 0) [late, early]).run.run FileSystem.empty = (.ok files, fs') ∧
      open? fs' ⟨"db"⟩ ⟨"g", "t", none, by decide, by decide⟩ 1 Config.default = .ok opened ∧
      ∃ order, SortedByKey [late, early] order ∧ opened.items fs' = order.map .ok ∧
        ((tupleAt fs' 2).run.run opened).1 = .ok order[2]? ∧
        ((tuplesOf fs' "b").run.run opened).1 = .ok (order.filter fun t => t.key = "b") := by
  intro early late
  obtain ⟨fs', hwrite⟩ := exists_write_two 0 .buffered 0.01 (List.replicate 32 0)
  obtain ⟨opened, order, hopen, hsorted, hreads⟩ := read_back_after_write ⟨"db"⟩
    ⟨"g", "t", none, by decide, by decide⟩ 1 ⟨0, .buffered, false, 0.01, 2⟩ Config.default
    (List.replicate 32 0) [late, early] FileSystem.empty fs' _ rfl
    (fun p _ => FileSystem.vacant_empty p.location) hwrite (by decide)
  obtain ⟨hitems, hordinal, hkey, -⟩ := hreads opened .opened
  exact ⟨_, fs', opened, hwrite, hopen, order, hsorted, hitems, hordinal 2, hkey "b"⟩

/-- There is no room for a cache of the greatest capacity that can be asked for: what has been
written is not opened. -/
theorem not_opened_with_greatest_cache :
    (∀ p ∈ (SegmentPaths.ofNumber ⟨"g", "t", none, by decide, by decide⟩ ⟨"db"⟩ 1).toList,
      FileSystem.empty.Vacant p.location) ∧
    ∃ files fs', (write ⟨"db"⟩ ⟨"g", "t", none, by decide, by decide⟩ 1
      ⟨0xffffffffffffffff, .mapped, false, 0.01, 2⟩ (List.replicate 32 0)
        [⟨"b", ⟨[⟨⟨0⟩, ⟨0x3ff0000000000000⟩, by decide⟩]⟩, [], 2, 4⟩,
          ⟨"a", Box.fullSpace, [7], 1, 3⟩]).run.run FileSystem.empty = (.ok files, fs') ∧
      open? fs' ⟨"db"⟩ ⟨"g", "t", none, by decide, by decide⟩ 1
        ⟨0xffffffffffffffff, .mapped, false, 0.01, 2⟩ = .error .aborted := by
  have vacant : ∀ p ∈ (SegmentPaths.ofNumber ⟨"g", "t", none, by decide, by decide⟩
      ⟨"db"⟩ 1).toList, FileSystem.empty.Vacant p.location :=
    fun p _ => FileSystem.vacant_empty p.location
  obtain ⟨fs', hwrite⟩ := exists_write_two 0xffffffffffffffff .mapped 0.01 (List.replicate 32 0)
  obtain ⟨-, written⟩ := written_of_write rfl vacant hwrite
  exact ⟨vacant, _, fs', hwrite, written.open_aborted (by decide)⟩

end Segment

end SpatialSegment
