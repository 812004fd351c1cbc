import SpatialSegment.Proofs.Segment.Cleanup
import SpatialSegment.Proofs.Segment.Dimensions

/-!
# Writing a segment is all or nothing

Tuples are written exactly if a node may list two things, every key fits its word and the boxes have
one dimension, as long as there is room for the files and no file grows too large. Then the files of
the segment are there and nothing else is at their paths. Otherwise none is.
-/

namespace SpatialSegment

namespace Segment

variable {fs made : FileSystem} {config : Config} {seed : Bytes} {tuples order : List Tuple}

/-- What makes tuples a segment. -/
structure Conforming (config : Config) (tuples : List Tuple) : Prop where
  nodeSize : 2 ≤ config.maxNodeSize
  keys : ∀ t ∈ tuples, 1 ≤ (Text.bytes t.key).length ∧ (Text.bytes t.key).length ≤ 32767
  boxes : SharedDimension tuples

/-- No file of the tuples, in the order of the log, is larger than 2 GiB. The size of a filter is
its number of bytes of bits, which is not zero. -/
structure Sized (config : Config) (order : List Tuple) : Prop where
  log : FileFormat.bodyStart + (order.map Record.storedLen).sum ≤ Word.maxSigned32
  tree : ∀ (two_le : 2 ≤ config.maxNodeSize) (full : RTree),
    (RTree.empty config.maxNodeSize two_le).insertAll
      (spatialEntries order (recordOffsets FileFormat.bodyStart order)) = (full, true) →
        full.storedSize ≤ Word.maxSigned32
  filter : config.useFilter = true →
    1 ≤ Filter.bytesFor (max order.length 1) config.filterRate ∧
      Filter.bytesFor (max order.length 1) config.filterRate ≤ Word.maxSigned32

theorem recordOffsets_le (offset : Nat) (order : List Tuple) :
    ∀ o ∈ recordOffsets offset order, o ≤ offset + (order.map Record.storedLen).sum := by
  induction order generalizing offset with
  | nil => simp [recordOffsets]
  | cons t order ih =>
    rw [recordOffsets, List.map_cons, List.sum_cons]
    refine List.forall_mem_cons.mpr ⟨by omega, fun o ho => ?_⟩
    have hle := ih _ o ho
    omega

theorem recorded_of_size {offset : Nat}
    (keys : ∀ t ∈ order, 1 ≤ (Text.bytes t.key).length ∧ (Text.bytes t.key).length ≤ 32767)
    (size : offset + (order.map Record.storedLen).sum ≤ Word.maxSigned32) :
    Recorded offset order := by
  refine ⟨fun t ht => ?_, fun o ho => (recordOffsets_le offset order o ho).trans size⟩
  obtain ⟨hpos, hle⟩ := keys t ht
  have hmem := List.single_le_sum (l := order.map Record.storedLen) (fun n _ => Nat.zero_le n) _
    (List.mem_map_of_mem ht)
  rw [Record.storedLen] at hmem
  exact ⟨⟨hle, by omega, by omega⟩, hpos⟩

theorem offset_mem_of_spatialEntries {offsets : List Nat} {e : Entry}
    (he : e ∈ spatialEntries order offsets) : e.offset ∈ offsets := by
  obtain ⟨⟨t, offset⟩, hmem, hentry⟩ := List.mem_filterMap.mp he
  dsimp only at hentry
  split at hentry
  · cases hentry
  · cases hentry
    exact (List.of_mem_zip hmem).2

theorem Sized.exists_filter (sized : Sized config order) (seed : Bytes)
    (huse : config.useFilter = true) (rate : 0.0 < config.filterRate ∧ config.filterRate < 1.0) :
    ∃ f, Filter.build? seed (order.map Tuple.key) order.length config.filterRate = some f := by
  obtain ⟨hpos, hle⟩ := sized.filter huse
  have hmax : Word.maxSigned32 < Filter.bytesLimit := by decide
  exact ⟨_, Filter.buildWith?_eq_some_iff.mpr ⟨rate, hpos, hle.trans_lt hmax, rfl⟩⟩

/-- Conforming tuples get through every step. -/
theorem Conforming.accepted (conforming : Conforming config order) (seed : Bytes)
    (sized : Sized config order)
    (rate : config.useFilter = true → 0.0 < config.filterRate ∧ config.filterRate < 1.0) :
    Accepted (RTree.empty config.maxNodeSize conforming.nodeSize) config seed order := by
  have recorded := recorded_of_size conforming.keys sized.log
  refine ⟨recorded, exists_summary_iff.mpr conforming.boxes, ?_,
    fun huse => sized.exists_filter seed huse (rate huse)⟩
  have hall := (insertAll_iff conforming.nodeSize
    (length_recordOffsets FileFormat.bodyStart order).ge).mpr conforming.boxes
  cases hinsert : (RTree.empty config.maxNodeSize conforming.nodeSize).insertAll
      (spatialEntries order (recordOffsets FileFormat.bodyStart order)) with
  | mk full all =>
    rw [hinsert] at hall
    obtain rfl : all = true := hall
    obtain ⟨sound, hentries⟩ :=
      (RTree.sound_empty config.maxNodeSize conforming.nodeSize).insertAll hinsert
    have storable := sound.storable_of_size
      (fun e he => recorded.offset_le _ (offset_mem_of_spatialEntries (hentries.subset he)))
      (sized.tree conforming.nodeSize full hinsert)
    refine ⟨full, rfl, ?_⟩
    rw [storable.image_eq]

/-- Tuples that have been written conform. -/
theorem conforming_of_writeAll {files : SegmentPaths} {table : TableName} {number : UInt64}
    {tree : RTree} (two_le : 2 ≤ config.maxNodeSize) {done : Unit} {filled : FileSystem}
    (h : (writeAll files table number config tree seed order).run.run made = (.ok done, filled)) :
    Conforming config order := by
  unfold writeAll at h
  obtain ⟨summary, fs₀, hsummary, h₁⟩ := exists_of_bind_ok h
  obtain ⟨hof, rfl⟩ := Writing.of_ofResult hsummary
  obtain ⟨offsets, fs₁, hlog, -⟩ := exists_of_bind_ok h₁
  obtain ⟨-, recorded, -⟩ := of_writeLog hlog
  refine ⟨two_le, fun t ht => ?_, exists_summary_iff.mp ⟨summary, mapError_eq_ok.mp hof⟩⟩
  have storable := recorded.storable t ht
  exact ⟨storable.key_pos, storable.key_le⟩

theorem Conforming.perm (h : order.Perm tuples) :
    Conforming config order ↔ Conforming config tuples := by
  constructor
  · rintro ⟨two_le, keys, boxes⟩
    exact ⟨two_le, fun t ht => keys t (h.symm.subset ht), (SharedDimension.perm h).mp boxes⟩
  · rintro ⟨two_le, keys, boxes⟩
    exact ⟨two_le, fun t ht => keys t (h.subset ht), (SharedDimension.perm h).mpr boxes⟩

section

variable {base : Path} {table : TableName} {number : UInt64}

/-- A call that gives paths was given tuples that conform. -/
theorem conforming_of_write {files : SegmentPaths} {left : FileSystem}
    (h : (write base table number config seed tuples).run.run fs = (.ok files, left)) :
    Conforming config tuples := by
  cases ending_of_write h with
  | @done two_le _ _ hmade hall =>
    exact (Conforming.perm (sortedByKey_sorted tuples).perm).mp
      (conforming_of_writeAll two_le hall)

section

variable (room : ∀ p ∈ (SegmentPaths.ofNumber table base number).toList, made.Room p)
  (hmade : fs.makeDirectories (table.directory base) = (.ok (), made))
  (sized : Sized config (sorted tuples))
  (rate : config.useFilter = true → 0.0 < config.filterRate ∧ config.filterRate < 1.0)

include room hmade

/-- Where there is room nothing was before. -/
theorem absent_of_room : ∀ p ∈ (SegmentPaths.ofNumber table base number).toList,
    made.isPresent p = false ∧ fs.isPresent p = false := by
  intro p hp
  have habsent : made.isPresent p = false := by
    rw [FileSystem.isPresent, (room p hp).1.find_none (room p hp).2]
    rfl
  have keeps : FileSystem.Keeps fs made := by
    have keeps : FileSystem.Keeps fs (fs.makeDirectories (table.directory base)).2 :=
      FileSystem.keeps_makeDirectories _
    rwa [hmade] at keeps
  exact ⟨habsent, keeps.absent habsent⟩

include sized rate

/-- Conforming tuples are written, and the files of the segment are all that is there. -/
theorem exists_write_of_conforming (seed : Bytes) (conforming : Conforming config tuples) :
    ∃ left, (write base table number config seed tuples).run.run fs =
        (.ok (SegmentPaths.ofNumber table base number), left) ∧
      (SegmentPaths.ofNumber table base number).present left =
        (SegmentPaths.ofNumber table base number).stored config.useFilter := by
  have accepted := ((Conforming.perm (sortedByKey_sorted tuples).perm).mpr conforming).accepted
    seed sized rate
  have absent := (absent_of_room room hmade _ List.mem_cons_self).2
  obtain ⟨left, hrun, fills⟩ := exists_write conforming.nodeSize absent hmade
    (fun p hp => room p ((SegmentPaths.stored_sublist _ _).subset hp)) accepted
  exact ⟨left, hrun,
    SegmentPaths.present_eq (SegmentPaths.nodup_locations table base number) room
      (SegmentPaths.stored_sublist _ _) fills⟩

/-- Other tuples are refused, and nothing is left. -/
theorem refused_of_not_conforming (hnot : ¬ Conforming config tuples)
    {result : Except Failure SegmentPaths} {left : FileSystem}
    (h : (write base table number config seed tuples).run.run fs = (result, left)) :
    (∃ cause, result = .error (.error cause)) ∧
      (SegmentPaths.ofNumber table base number).present left = [] := by
  obtain (cause | _) | files := result
  · refine ⟨⟨cause, rfl⟩, List.filter_eq_nil_iff.mpr fun p hp => ?_⟩
    have absent := absent_of_room room hmade
    have hleft := (noFileAt_of_write_error
      (fun q hq => FileSystem.noFileAt_of_absent (absent q hq).2) h p hp).2
    rw [hmade] at hleft
    rw [hleft (absent p hp).1]
    exact Bool.false_ne_true
  · obtain ⟨huse, hnone⟩ := filter_of_write_aborted h
    obtain ⟨f, hsome⟩ := sized.exists_filter seed huse (rate huse)
    rw [hnone] at hsome
    cases hsome
  · exact absurd (conforming_of_write h) hnot

end

end

/-- Writing is all or nothing. A segment whose log is there is left as it is. After an error no file
is left if none was there before, nor anything else unless the directory of the table has brought
it. Where this directory can be made and has room, and no file grows too large, the tuples are
written exactly if they conform, and then exactly the files of the segment are there. -/
theorem write_all_or_nothing {fs made left : FileSystem} {base : Path} {table : TableName}
    {number : UInt64} {config : Config} {seed : Bytes} {tuples : List Tuple}
    {directory : Except IoFault Unit} {result : Except Failure SegmentPaths}
    (hmade : fs.makeDirectories (table.directory base) = (directory, made))
    (hended : (write base table number config seed tuples).run.run fs = (result, left)) :
    let files := SegmentPaths.ofNumber table base number
    (fs.isPresent files.log = true →
      result = .error (.error (.invalidOperation (.segmentExists number table.text))) ∧
        left = fs) ∧
    ((∀ p ∈ files.toList, fs.NoFileAt p) → ∀ cause, result = .error (.error cause) →
      ∀ p ∈ files.toList, left.NoFileAt p ∧
        (made.isPresent p = false → left.isPresent p = false)) ∧
    (directory = .ok () → (∀ p ∈ files.toList, made.Room p) → Sized config (sorted tuples) →
      (config.useFilter = true → 0.0 < config.filterRate ∧ config.filterRate < 1.0) →
      (Conforming config tuples → result = .ok files ∧
        files.present left = files.stored config.useFilter) ∧
      (¬ Conforming config tuples → (∃ cause, result = .error (.error cause)) ∧
        files.present left = [])) := by
  intro files
  refine ⟨fun present => ?_, ?_, ?_⟩
  · exact Prod.mk.inj (hended.symm.trans (run_write_of_present present))
  · rintro absent cause rfl p hp
    have hleft := noFileAt_of_write_error absent hended p hp
    rwa [hmade] at hleft
  · rintro rfl room sized rate
    refine ⟨fun conforming => ?_, fun hnot =>
      refused_of_not_conforming room hmade sized rate hnot hended⟩
    obtain ⟨left', hrun, hpresent⟩ :=
      exists_write_of_conforming room hmade sized rate seed conforming
    obtain ⟨rfl, rfl⟩ := Prod.mk.inj (hended.symm.trans hrun)
    exact ⟨rfl, hpresent⟩

/-- Two tuples are written into an empty file system and not written over; a tuple without a key
leaves nothing. -/
theorem write_all_or_nothing_empty :
    let table : TableName := ⟨"g", "t", none, by decide, by decide⟩
    let files := SegmentPaths.ofNumber table ⟨"db"⟩ 1
    let config : Config := ⟨0, .mapped, false, 0.01, 2⟩
    let two : List Tuple := [⟨"b", ⟨[⟨⟨0⟩, ⟨0x3ff0000000000000⟩, by decide⟩]⟩, [], 2, 4⟩,
      ⟨"a", Box.fullSpace, [7], 1, 3⟩]
    let keyless : List Tuple := [⟨"", Box.fullSpace, [], 1, 1⟩]
    ∃ written left,
      (write ⟨"db"⟩ table 1 config [] two).run.run FileSystem.empty = (.ok files, written) ∧
      files.present written = files.stored false ∧
      (write ⟨"db"⟩ table 1 config [] two).run.run written =
        (.error (.error (.invalidOperation (.segmentExists 1 table.text))), written) ∧
      (∃ cause, (write ⟨"db"⟩ table 1 config [] keyless).run.run FileSystem.empty =
        (.error (.error cause), left)) ∧
      files.present left = [] ∧ ∀ p ∈ files.toList, left.NoFileAt p := by
  intro table files config two keyless
  have hinsert : (RTree.empty 2 (by decide)).insertAll
      [⟨⟨[⟨⟨0⟩, ⟨0x3ff0000000000000⟩, by decide⟩]⟩, 38⟩] =
        (⟨[⟨0, _, none, .leaf [_]⟩], 2, 1, 1, _⟩, true) :=
    congrArg (·, true) (RTree.insert_empty (by decide) rfl)
  have sizedTwo : Sized config (sorted two) := by
    rw [sorted_pair_of_gt (by decide)]
    refine ⟨by decide, fun two_le full h => ?_, fun h => by cases h⟩
    cases hinsert.symm.trans h
    decide
  have sizedOne : Sized config (sorted keyless) := by
    rw [sorted, List.mergeSort_singleton]
    refine ⟨by decide, fun two_le full h => ?_, fun h => by cases h⟩
    cases h
    have hsize : ∀ h : 2 ≤ 2, (RTree.empty 2 h).storedSize ≤ Word.maxSigned32 := by decide
    exact hsize two_le
  have conforming : Conforming config two := by
    refine ⟨Nat.le_refl 2, by decide, 1, List.forall_mem_cons.mpr ⟨fun _ => rfl, ?_⟩⟩
    exact List.forall_mem_singleton.mpr (Box.suits_of_isFullSpace rfl 1)
  have notConforming : ¬ Conforming config keyless :=
    fun h => absurd (h.keys _ List.mem_cons_self).1 (by decide)
  obtain ⟨made, hmade, room⟩ := room_empty
  have runs : ∀ (tuples : List Tuple) (fs : FileSystem), ∃ result left,
      (write ⟨"db"⟩ table 1 config [] tuples).run.run fs = (result, left) :=
    fun tuples fs => ⟨_, _, Prod.mk.eta.symm⟩
  obtain ⟨result, written, hwritten⟩ := runs two FileSystem.empty
  obtain ⟨rfl, hpresent⟩ := ((write_all_or_nothing hmade hwritten).2.2 rfl room sizedTwo
    (fun h => by cases h)).1 conforming
  obtain ⟨again, kept, hagain⟩ := runs two written
  have hlog : files.log ∈ files.present written := hpresent ▸ List.mem_cons_self
  obtain ⟨rfl, rfl⟩ := (write_all_or_nothing Prod.mk.eta.symm hagain).1
    (List.mem_filter.mp hlog).2
  obtain ⟨result, left, hrefused⟩ := runs keyless FileSystem.empty
  obtain ⟨⟨cause, rfl⟩, habsent⟩ := ((write_all_or_nothing hmade hrefused).2.2 rfl room sizedOne
    (fun h => by cases h)).2 notConforming
  have hnone := (write_all_or_nothing hmade hrefused).2.1
    (fun p _ => (FileSystem.vacant_empty p.location).noFileAt) cause rfl
  exact ⟨kept, left, hwritten, hpresent, hagain, ⟨cause, hrefused⟩, habsent,
    fun p hp => (hnone p hp).1⟩

end Segment

end SpatialSegment
