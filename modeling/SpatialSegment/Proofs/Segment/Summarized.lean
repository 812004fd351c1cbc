import SpatialSegment.Proofs.RTree.Root
import SpatialSegment.Proofs.Segment.Opened
import SpatialSegment.Proofs.Segment.Success
import SpatialSegment.Proofs.Summary.Drafts

/-!
# What a segment tells about its tuples

The summary joins the boxes of the tuples in the order of their keys. The spatial index joins those
that are not the full space again and again, wherever a leaf is divided. What is left out adds
nothing, so both come to the box around the same boxes.
-/

namespace SpatialSegment

namespace Segment

variable {fs : FileSystem} {files : SegmentPaths} {order : List Tuple} {tree : RTree}

/-- The box of the loaded spatial index is, as numbers, the one around the boxes of the tuples. -/
theorem Indexed.bounds_of_load (indexed : Indexed fs files order)
    (hload : RTree.load fs files.spatialIndex = .ok tree) :
    tree.box.bounds = (Box.unionAll (order.map Tuple.box)).bounds := by
  obtain ⟨t, sound, hentries, himage, hstores⟩ := indexed.tree
  rw [RTree.load, hstores.read] at hload
  have hread := mapError_eq_ok.mp hload
  have hlength : order.length ≤ (recordOffsets FileFormat.bodyStart order).length :=
    Nat.le_of_eq (length_recordOffsets _ _).symm
  calc tree.box.bounds
      = t.box.bounds := by rw [sound.box_of_ofBytes himage hread]
    _ = (Box.unionAll (t.entries.map Entry.box)).bounds := sound.bounds_box
    _ = (Box.unionAll ((spatialEntries order
          (recordOffsets FileFormat.bodyStart order)).map Entry.box)).bounds :=
      Box.bounds_unionAll_perm (hentries.map Entry.box)
    _ = (Box.unionAll (order.map Tuple.box)).bounds := by
      rw [map_box_spatialEntries hlength, Box.unionAll_filter_proper]

theorem Indexed.exists_summarized (indexed : Indexed fs files order) :
    ∃ summary tree, loadSummary fs files.summary = .ok summary ∧
      RTree.load fs files.spatialIndex = .ok tree ∧ summary.Summarizes order ∧
      summary.box.sameNumbers tree.box = true := by
  obtain ⟨summary, hsummarizes, hsummary⟩ := indexed.exists_summary
  obtain ⟨tree, htree, -⟩ := indexed.exists_load
  obtain ⟨-, hbox⟩ := Box.covering_eq_ok_iff.mp hsummarizes.box
  refine ⟨summary, tree, hsummary, htree, hsummarizes, (Box.sameNumbers_iff _ _).mpr ?_⟩
  rw [indexed.bounds_of_load htree, hbox]

/-- What a segment has when it is opened is what can be loaded from its files. -/
theorem Indexed.loaded_of_open {base : Path} {table : TableName} {number : UInt64}
    {reader : Config} {summary : Summary} {opened : Segment}
    (indexed : Indexed fs (SegmentPaths.ofNumber table base number) order)
    (hsummary : loadSummary fs (SegmentPaths.ofNumber table base number).summary = .ok summary)
    (htree : RTree.load fs (SegmentPaths.ofNumber table base number).spatialIndex = .ok tree)
    (hopen : open? fs base table number reader = .ok opened) :
    opened.summary = summary ∧ opened.tree = tree := by
  have capacity : reader.cacheCapacity ≤ RecentKeys.maxCapacity := by
    by_contra hroom
    rw [indexed.open_aborted (Nat.lt_of_not_le hroom)] at hopen
    cases hopen
  obtain ⟨s, hs, -, -, -, rfl, rfl, -⟩ := exists_open_of_stores indexed.log indexed.index
    (length_offsets_mod order) htree hsummary capacity
  rw [hs] at hopen
  cases hopen
  exact ⟨rfl, rfl⟩

/-- Tuples are offered to a growing summary, `held` being those that it takes. It refuses a tuple
exactly if the first box held that is not the full space has another dimension, and is then as it
was before. Finished it tells number, extreme times and covering box of those held. If none was
refused, none is in any other order, and the summary is the same, its box as numbers.

The summary of a written segment, once loaded, is that of its tuples in the order of the log, and
its box is, as numbers, that of the loaded spatial index; a segment that is opened has these two. -/
theorem summary_gathers_tuples :
    (∀ offered : List Tuple,
      let draft := Calls.stateAfter Summary.Draft.offer Summary.Draft.empty offered
      let held := Summary.Draft.empty.taken offered
      (∀ t cause, (draft.offer t).1 = .error cause ↔ t.box.isFullSpace = false ∧
        ∃ first ∈ (held.map Tuple.box).find? fun b => !b.isFullSpace,
          first.dimension ≠ t.box.dimension ∧
            cause = .mixedDimensions first.dimension t.box.dimension) ∧
      (∀ t cause, (draft.offer t).1 = .error cause → (draft.offer t).2 = draft) ∧
      draft.finish.Summarizes held ∧
      ((∀ answer ∈ Calls.answers Summary.Draft.offer Summary.Draft.empty offered,
          answer = .ok ()) →
        held = offered ∧ ∀ other : List Tuple, other.Perm offered →
          let draft' := Calls.stateAfter Summary.Draft.offer Summary.Draft.empty other
          (∀ answer ∈ Calls.answers Summary.Draft.offer Summary.Draft.empty other,
              answer = .ok ()) ∧
            draft'.finish = { draft.finish with box := draft'.finish.box } ∧
            draft'.finish.box.sameNumbers draft.finish.box = true)) ∧
    ∀ (base : Path) (table : TableName) (number : UInt64) (config : Config) (seed : Bytes)
      (tuples : List Tuple) (fs fs' : FileSystem) (files : SegmentPaths), seed.length = 32 →
      (∀ p ∈ (SegmentPaths.ofNumber table base number).toList, fs.Alone p.location) →
      (write base table number config seed tuples).run.run fs = (.ok files, fs') →
      ∃ summary tree, loadSummary fs' files.summary = .ok summary ∧
        RTree.load fs' files.spatialIndex = .ok tree ∧ summary.Summarizes (sorted tuples) ∧
        summary.box.sameNumbers tree.box = true ∧
        ∀ reader opened, open? fs' base table number reader = .ok opened →
          opened.summary = summary ∧ opened.tree = tree := by
  constructor
  · intro offered draft held
    have holds : draft.Holds held := Summary.Draft.holds_empty.stateAfter offered
    refine ⟨fun t cause => holds.offer_eq_error_iff,
      fun t cause => Summary.Draft.snd_offer_of_error, holds.finish, fun hanswers => ?_⟩
    refine ⟨Summary.Draft.taken_eq_self hanswers, fun other hperm => ?_⟩
    have hof : Summary.ofTuples offered = .ok draft.finish :=
      Summary.ofTuples_eq_ok_iff.mpr ⟨hanswers, rfl⟩
    obtain ⟨s', hof', hsame, hbox⟩ := Summary.ofTuples_perm hof hperm
    obtain ⟨hanswers', rfl⟩ := Summary.ofTuples_eq_ok_iff.mp hof'
    exact ⟨hanswers', hsame, hbox⟩
  · intro base table number config seed tuples fs fs' files full alone written
    obtain ⟨rfl, indexed, -⟩ := indexed_of_write full alone written
    obtain ⟨summary, tree, hsummary, htree, hsummarizes, hbox⟩ := indexed.exists_summarized
    exact ⟨summary, tree, hsummary, htree, hsummarizes, hbox,
      fun reader opened hopen => indexed.loaded_of_open hsummary htree hopen⟩

/-- A line with times before the epoch is taken, and so is the full space, in either order; a square
is refused after them. What is written of such tuples agrees. -/
theorem summary_gathers_tuples_two :
    let early : Tuple := ⟨"a", Box.fullSpace, [7], 1, 3⟩
    let line : Tuple := ⟨"b", ⟨[⟨⟨0⟩, ⟨0x3ff0000000000000⟩, by decide⟩]⟩, [], -2, -4⟩
    let square : Tuple := ⟨"c", ⟨line.box.intervals ++ line.box.intervals⟩, [], 9, 9⟩
    let draft := Calls.stateAfter Summary.Draft.offer Summary.Draft.empty [line, early]
    let draft' := Calls.stateAfter Summary.Draft.offer Summary.Draft.empty [early, line]
    draft.offer square = (.error (.mixedDimensions 1 2), draft) ∧
      draft.finish.Summarizes [line, early] ∧
      draft'.finish.box.sameNumbers draft.finish.box = true ∧
      ∃ files fs' summary tree,
        (write ⟨"db"⟩ ⟨"g", "t", none, by decide, by decide⟩ 1 ⟨0, .buffered, false, 0.01, 2⟩
          (List.replicate 32 0) [⟨"b", line.box, [], 2, 4⟩, early]).run.run FileSystem.empty =
            (.ok files, fs') ∧
          loadSummary fs' files.summary = .ok summary ∧
          RTree.load fs' files.spatialIndex = .ok tree ∧
          summary.box.sameNumbers tree.box = true := by
  intro early line square draft draft'
  obtain ⟨hrefused, hunchanged, hsummarizes, hsame⟩ := summary_gathers_tuples.1 [line, early]
  have hanswers : ∀ answer ∈ Calls.answers Summary.Draft.offer Summary.Draft.empty [line, early],
      answer = .ok () :=
    List.forall_mem_cons.mpr ⟨rfl, List.forall_mem_cons.mpr ⟨rfl, List.forall_mem_nil _⟩⟩
  obtain ⟨hheld, hpermuted⟩ := hsame hanswers
  rw [hheld] at hrefused hsummarizes
  obtain ⟨-, -, hbox⟩ := hpermuted [early, line] (List.Perm.swap _ _ _)
  have hsquare := (hrefused square (.mixedDimensions 1 2)).mpr
    ⟨rfl, line.box, rfl, by decide, rfl⟩
  refine ⟨Prod.ext hsquare (hunchanged _ _ hsquare), hsummarizes, hbox, ?_⟩
  obtain ⟨fs', hwrite⟩ := exists_write_two 0 .buffered 0.01 (List.replicate 32 0)
  obtain ⟨summary, tree, hsummary, htree, -, hboxes, -⟩ :=
    summary_gathers_tuples.2 _ _ _ _ _ _ _ _ _ rfl
      (fun p _ => (FileSystem.vacant_empty p.location).alone) hwrite
  exact ⟨_, fs', summary, tree, hwrite, hsummary, htree, hboxes⟩

end Segment

end SpatialSegment
