import SpatialSegment.Proofs.Checked.Write
import SpatialSegment.Proofs.Segment.Atomic

/-!
# Calls that break off

A call that is to write tuples gives paths or an error, unless it gets as far as a filter that
cannot be built: for such a filter nothing stands in the way of the steps before it. Then the call
breaks off, nothing is removed, and the log, the key index and the spatial index of the segment
stay. On a machine this is the only crash: no sum, product, position or assertion on the way to the
five files gives another one.
-/

namespace SpatialSegment

namespace FileSystem

variable {fs fs' : FileSystem} {p : Path} {bs : Bytes}

/-- Writing a file keeps what is anywhere. -/
theorem keeps_write (h : fs.write p bs = .ok fs') : Keeps fs fs' := by
  obtain ⟨l, -, ⟨hnone, rfl⟩ | ⟨id, -, rfl⟩⟩ := exists_leads_of_write h
  · exact keeps_create hnone
  · exact fun _ _ hplace => hplace

theorem isPresent_of_write (h : fs.write p bs = .ok fs') : fs'.isPresent p = true := by
  obtain ⟨l, leads, ⟨hnone, rfl⟩ | ⟨id, hid, rfl⟩⟩ := exists_leads_of_write h
  · have hplace : (fs.create l bs).placeAt l = some (.file fs.contents.length) := by
      rw [placeAt_create, if_neg leads.names_ne_nil, if_pos rfl]
    rw [isPresent, (leads.keeps (keeps_create hnone)).find hplace]
    rfl
  · have keeps : Keeps fs (fs.setContent id bs) := fun _ _ hplace => hplace
    rw [isPresent, (leads.keeps keeps).find (keeps l _ hid)]
    rfl

end FileSystem

namespace Segment

open FileSystem

variable {fs left : FileSystem} {files : SegmentPaths} {table : TableName} {number : UInt64}
  {config : Config} {tree : RTree} {seed : Bytes} {order tuples : List Tuple}

/-- No filter can be built though one is to be written. -/
def Unbuildable (config : Config) (seed : Bytes) (order : List Tuple) : Prop :=
  config.useFilter = true ∧
    Filter.build? seed (order.map Tuple.key) order.length config.filterRate = none

/-- A rate that is no share of wrong answers allows no filter. -/
theorem unbuildable_of_rate (huse : config.useFilter = true)
    (rate : ¬ (0.0 < config.filterRate ∧ config.filterRate < 1.0)) (seed : Bytes)
    (order : List Tuple) : Unbuildable config seed order :=
  ⟨huse, if_neg rate⟩

/-- The first three files are there once they have been written. -/
theorem isPresent_of_writeIndexes {summary : Summary}
    (h : (writeIndexes files table number tree order).run.run fs = (.ok summary, left)) :
    ∀ p ∈ files.indexes, left.isPresent p = true := by
  unfold writeIndexes at h
  obtain ⟨_, fs₀, hsummary, h₁⟩ := exists_of_bind_ok h
  obtain ⟨offsets, fs₁, hlog, h₂⟩ := exists_of_bind_ok h₁
  obtain ⟨-, -, hlogWrite⟩ := of_writeLog hlog
  obtain ⟨_, fs₂, hindex, h₃⟩ := exists_of_bind_ok h₂
  have hindexWrite := of_writeIndex hindex
  cases hinsert : tree.insertAll (spatialEntries order offsets) with
  | mk full all =>
    rw [hinsert] at h₃
    cases all with
    | false => cases h₃
    | true =>
      obtain ⟨_, fs₃, htree, h₄⟩ := exists_of_bind_ok h₃
      cases h₄
      obtain ⟨-, htreeWrite⟩ := of_writeSpatialIndex htree
      have keeps₃ := keeps_write htreeWrite
      have keeps₂ := (keeps_write hindexWrite).trans keeps₃
      refine List.forall_mem_cons.mpr ⟨keeps₂.isPresent (isPresent_of_write hlogWrite), ?_⟩
      refine List.forall_mem_cons.mpr ⟨keeps₃.isPresent (isPresent_of_write hindexWrite), ?_⟩
      exact List.forall_mem_singleton.mpr (isPresent_of_write htreeWrite)

theorem writeIndexes_ne_aborted :
    (writeIndexes files table number tree order).run.run fs ≠ (.error .aborted, left) := by
  intro h
  have safe := Writing.safe_writeIndexes (I := fun _ => True) (P := False) (fun _ _ => trivial)
    files table number tree order fs trivial
  rw [h] at safe
  exact safe.2 rfl

theorem writeSidecars_of_unbuildable (unbuildable : Unbuildable config seed order)
    (summary : Summary) :
    (writeSidecars files config seed order summary).run.run fs = (.error .aborted, fs) := by
  obtain ⟨huse, hbuild⟩ := unbuildable
  rw [← List.length_map Tuple.key] at hbuild
  rw [writeSidecars, if_pos huse, writeFilter, hbuild]
  rfl

/-- The steps break off exactly if those before the filter are done and it cannot be built. -/
theorem writeAll_aborted_iff :
    (writeAll files table number config tree seed order).run.run fs = (.error .aborted, left) ↔
      Unbuildable config seed order ∧ ∃ summary,
        (writeIndexes files table number tree order).run.run fs = (.ok summary, left) := by
  constructor
  · intro h
    have unbuildable : Unbuildable config seed order := filter_of_writeAll_aborted h
    refine ⟨unbuildable, ?_⟩
    rw [writeAll_eq, run_bind] at h
    cases hindexes : (writeIndexes files table number tree order).run.run fs with
    | mk result fs₁ =>
      rw [hindexes] at h
      cases result with
      | error failure =>
        cases h
        exact absurd hindexes writeIndexes_ne_aborted
      | ok summary =>
        dsimp only at h
        rw [writeSidecars_of_unbuildable unbuildable] at h
        cases h
        exact ⟨summary, rfl⟩
  · rintro ⟨unbuildable, summary, hindexes⟩
    rw [writeAll_eq, run_bind_of_ok hindexes, writeSidecars_of_unbuildable unbuildable]

/-! ## The call -/

variable {base : Path}

/-- The call breaks off exactly if it gets as far as a filter that cannot be built. -/
theorem write_aborted_iff :
    (write base table number config seed tuples).run.run fs = (.error .aborted, left) ↔
      Unbuildable config seed (sorted tuples) ∧
      fs.isPresent (SegmentPaths.ofNumber table base number).log = false ∧
      ∃ (two_le : 2 ≤ config.maxNodeSize) (made : FileSystem) (summary : Summary),
        fs.makeDirectories (table.directory base) = (.ok (), made) ∧
        (writeIndexes (SegmentPaths.ofNumber table base number) table number
          (RTree.empty config.maxNodeSize two_le) (sorted tuples)).run.run made =
            (.ok summary, left) := by
  constructor
  · intro h
    have hending := ending_of_write h
    cases hending with
    | @broken two_le made _ hmade hall =>
      obtain ⟨unbuildable, summary, hindexes⟩ := writeAll_aborted_iff.mp hall
      refine ⟨unbuildable, ?_, two_le, made, summary, hmade, hindexes⟩
      rw [← Bool.not_eq_true]
      intro present
      rw [run_write_of_present present] at h
      cases h
  · rintro ⟨unbuildable, absent, two_le, made, summary, hmade, hindexes⟩
    have hall := writeAll_aborted_iff.mpr ⟨unbuildable, summary, hindexes⟩
    have hkept := Writing.run_onError (writeAll (SegmentPaths.ofNumber table base number) table
      number config (RTree.empty config.maxNodeSize two_le) seed (sorted tuples))
        (removeAll · (SegmentPaths.ofNumber table base number).toList) made
    rw [hall] at hkept
    exact run_write absent two_le hmade hkept

/-- For two tuples and a rate of 0 the first three files are written into an empty file system, and
then there is no filter. -/
theorem exists_write_without_rate (seed : Bytes) :
    ∃ left, (write ⟨"db"⟩ ⟨"g", "t", none, by decide, by decide⟩ 1 ⟨0, .mapped, true, 0.0, 2⟩ seed
        [⟨"b", ⟨[⟨⟨0⟩, ⟨0x3ff0000000000000⟩, by decide⟩]⟩, [], 2, 4⟩,
          ⟨"a", Box.fullSpace, [7], 1, 3⟩]).run.run FileSystem.empty = (.error .aborted, left) ∧
      (SegmentPaths.ofNumber ⟨"g", "t", none, by decide, by decide⟩ ⟨"db"⟩ 1).present left =
        (SegmentPaths.ofNumber ⟨"g", "t", none, by decide, by decide⟩ ⟨"db"⟩ 1).indexes := by
  obtain ⟨made, hmade, room⟩ := room_empty
  have apart := SegmentPaths.nodup_locations ⟨"g", "t", none, by decide, by decide⟩ ⟨"db"⟩ 1
  have hsub := SegmentPaths.indexes_sublist
    (SegmentPaths.ofNumber ⟨"g", "t", none, by decide, by decide⟩ ⟨"db"⟩ 1)
  have unbuildable : Unbuildable ⟨0, .mapped, true, 0.0, 2⟩ seed
      (sorted [⟨"b", ⟨[⟨⟨0⟩, ⟨0x3ff0000000000000⟩, by decide⟩]⟩, [], 2, 4⟩,
        ⟨"a", Box.fullSpace, [7], 1, 3⟩]) :=
    unbuildable_of_rate rfl (by decide) seed _
  have absent : FileSystem.empty.isPresent (SegmentPaths.ofNumber
      ⟨"g", "t", none, by decide, by decide⟩ ⟨"db"⟩ 1).log = false := by
    decide +kernel
  obtain ⟨summary, left, hindexes, fills⟩ := exists_writeIndexes
    ⟨"g", "t", none, by decide, by decide⟩ 1 (accepted_two 0 .mapped 0.0 seed)
    (apart.sublist (hsub.map Path.location)) (fun p hp => room p (hsub.subset hp))
  exact ⟨left, write_aborted_iff.mpr ⟨unbuildable, absent, Nat.le_refl 2, made, summary, hmade,
    hindexes⟩, SegmentPaths.present_eq apart room hsub fills⟩

/-- A call for tuples that memory holds breaks off exactly if nothing but the filter stands in its
way: the log is not there, the directory can be made, the first three files can be written, and the
filter cannot be built. Then the machine crashes and these three files are left. Otherwise it ends
as the call does. -/
theorem breaks_off_without_filter {fs left : FileSystem} {base : Path} {table : TableName}
    {number : UInt64} {config : Config} {seed : Bytes} {tuples : List Tuple}
    {result : Except Failure SegmentPaths} (few : tuples.length < Word.limit 8)
    (wide : ∀ t ∈ tuples, t.box.storedLen < Word.limit 8)
    (hended : (write base table number config seed tuples).run.run fs = (result, left)) :
    let files := SegmentPaths.ofNumber table base number
    let checked := (checkedWrite base table number config seed tuples).run.run fs
    (result = .error .aborted ↔
      Unbuildable config seed (sorted tuples) ∧ fs.isPresent files.log = false ∧
        ∃ (two_le : 2 ≤ config.maxNodeSize) (made : FileSystem) (summary : Summary),
          fs.makeDirectories (table.directory base) = (.ok (), made) ∧
          (writeIndexes files table number (RTree.empty config.maxNodeSize two_le)
            (sorted tuples)).run.run made = (.ok summary, left)) ∧
    (result = .error .aborted →
      checked = throw .panic ∧ ∀ p ∈ files.indexes, left.isPresent p = true) ∧
    (result ≠ .error .aborted → checked = pure (result, left)) := by
  intro files checked
  have haborted : result = .error .aborted ↔
      (write base table number config seed tuples).run.run fs = (.error .aborted, left) := by
    rw [hended, Prod.mk.injEq]
    exact ⟨fun h => ⟨h, rfl⟩, And.left⟩
  have hchecked : checked = CheckedWriting.ended (result, left) :=
    hended ▸ endsAs_write base table number config seed few wide
  refine ⟨haborted.trans write_aborted_iff, fun h => ⟨?_, ?_⟩, fun h => ?_⟩
  · rw [hchecked, h]
    rfl
  · obtain ⟨-, -, two_le, made, summary, -, hindexes⟩ := write_aborted_iff.mp (haborted.mp h)
    exact isPresent_of_writeIndexes hindexes
  · rw [hchecked, CheckedWriting.ended_of_ne h]

/-- With a rate of 0 the call for two tuples breaks off, and the machine crashes. -/
theorem breaks_off_without_filter_two :
    ∃ left,
      let files := SegmentPaths.ofNumber ⟨"g", "t", none, by decide, by decide⟩ ⟨"db"⟩ 1
      let tuples : List Tuple := [⟨"b", ⟨[⟨⟨0⟩, ⟨0x3ff0000000000000⟩, by decide⟩]⟩, [], 2, 4⟩,
        ⟨"a", Box.fullSpace, [7], 1, 3⟩]
      (write ⟨"db"⟩ ⟨"g", "t", none, by decide, by decide⟩ 1 ⟨0, .mapped, true, 0.0, 2⟩ []
        tuples).run.run FileSystem.empty = (.error .aborted, left) ∧
      (checkedWrite ⟨"db"⟩ ⟨"g", "t", none, by decide, by decide⟩ 1 ⟨0, .mapped, true, 0.0, 2⟩ []
        tuples).run.run FileSystem.empty = throw .panic ∧
      ∀ p ∈ files.indexes, left.isPresent p = true := by
  obtain ⟨left, hrun, -⟩ := exists_write_without_rate []
  exact ⟨left, hrun, (breaks_off_without_filter (by decide) (by decide) hrun).2.1 rfl⟩

/-- With a rate of 0 there is neither an error nor a segment: three of its files are left. -/
theorem partly_written_with_rate_zero :
    ∃ left,
      let files := SegmentPaths.ofNumber ⟨"g", "t", none, by decide, by decide⟩ ⟨"db"⟩ 1
      (write ⟨"db"⟩ ⟨"g", "t", none, by decide, by decide⟩ 1 ⟨0, .mapped, true, 0.0, 2⟩
        (List.replicate 32 0) [⟨"b", ⟨[⟨⟨0⟩, ⟨0x3ff0000000000000⟩, by decide⟩]⟩, [], 2, 4⟩,
          ⟨"a", Box.fullSpace, [7], 1, 3⟩]).run.run FileSystem.empty = (.error .aborted, left) ∧
      files.present left = [files.log, files.keyIndex, files.spatialIndex] :=
  exists_write_without_rate (List.replicate 32 0)

end Segment

end SpatialSegment
