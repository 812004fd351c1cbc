import SpatialSegment.Proofs.Segment.Written

/-!
# When writing succeeds

Where the directory of the table can be made and nothing is at the five paths, every step gets
through if the tuples have records, a summary, a place in the spatial index and a filter.
-/

namespace SpatialSegment

namespace Segment

variable {fs fs' : FileSystem}

/-- What the tuples must allow to be written in this order. -/
structure Accepted (tree : RTree) (config : Config) (seed : Bytes) (order : List Tuple) : Prop where
  recorded : Recorded FileFormat.bodyStart order
  summary : ∃ summary, Summary.ofTuples order = .ok summary
  tree : ∃ full,
    tree.insertAll (spatialEntries order (recordOffsets FileFormat.bodyStart order)) =
      (full, true) ∧ full.image.2 = .ok ()
  filter : config.useFilter = true →
    ∃ f, Filter.build? seed (order.map Tuple.key) order.length config.filterRate = some f

theorem run_file {path : Path} (room : fs.Room path) (bs : Bytes) :
    (Writing.file path bs).run.run fs = (.ok (), fs.create path.location bs) := by
  rw [Writing.run_file, room.write]

theorem run_get (fs : FileSystem) :
    (MonadState.get : Writing FileSystem).run.run fs = (.ok fs, fs) := rfl

theorem run_makeDirectory (fs : FileSystem) (directory : Path) :
    (makeDirectory directory).run.run fs =
      ((fs.makeDirectories directory).1.mapError (fun cause => .error (.fileIo directory 0 cause)),
        (fs.makeDirectories directory).2) :=
  rfl

theorem exists_run_writeLog {path : Path} {order : List Tuple}
    (recorded : Recorded FileFormat.bodyStart order) (room : fs.Room path) :
    ∃ bs, (writeLog path order).run.run fs =
      (.ok (recordOffsets FileFormat.bodyStart order), fs.create path.location bs) := by
  refine ⟨FileFormat.tupleLog.magic ++ order.flatMap Record.stored, ?_⟩
  unfold writeLog
  rw [records_eq recorded]
  exact run_bind_of_ok (run_file room _)

theorem exists_run_writeIndex {path : Path} {offsets : List Nat}
    (small : ∀ o ∈ offsets, o ≤ Word.maxSigned32) (room : fs.Room path) :
    ∃ bs, (writeIndex path offsets).run.run fs = (.ok (), fs.create path.location bs) := by
  have hwords : offsets.mapM indexWord = .ok (offsets.map (Word.big 4)) := by
    refine mapM_ok fun o ho => ?_
    rw [indexWord, if_neg (Nat.not_lt.mpr (small o ho))]
  refine ⟨FileFormat.keyIndex.magic ++ (offsets.map (Word.big 4)).flatten, ?_⟩
  unfold writeIndex
  rw [hwords]
  exact run_file room _

theorem exists_run_writeSpatialIndex {path : Path} {t : RTree} (himage : t.image.2 = .ok ())
    (room : fs.Room path) :
    ∃ bs, (writeSpatialIndex path t).run.run fs = (.ok (), fs.create path.location bs) := by
  refine ⟨t.image.1, ?_⟩
  rw [run_writeSpatialIndex, room.write, himage]
  rfl

theorem run_writeFilter {path : Path} {seed : Bytes} {keys : List String} {rate : Float}
    {f : Filter} (hbuild : Filter.build? seed keys keys.length rate = some f)
    (room : fs.Room path) :
    (writeFilter path seed keys rate).run.run fs = (.ok (), fs.create path.location f.toBytes) := by
  unfold writeFilter
  rw [hbuild]
  exact run_file room _

/-! ## The files in order -/

/-- The steps before that of the filter: log, key index and spatial index. -/
def writeIndexes (files : SegmentPaths) (table : TableName) (number : UInt64) (tree : RTree)
    (order : List Tuple) : Writing Summary := do
  let summary ← Writing.ofResult ((Summary.ofTuples order).mapError .invalidArgument)
  let offsets ← writeLog files.log order
  writeIndex files.keyIndex offsets
  let (tree, all) := tree.insertAll (spatialEntries order offsets)
  if !all then
    throw (.error (.invalidArgument (.segmentDimensions number table.text)))
  writeSpatialIndex files.spatialIndex tree
  return summary

/-- The steps from that of the filter on. -/
def writeSidecars (files : SegmentPaths) (config : Config) (seed : Bytes) (order : List Tuple)
    (summary : Summary) : Writing Unit := do
  if config.useFilter then
    writeFilter files.filter seed (order.map Tuple.key) config.filterRate
  Writing.file files.summary summary.toBytes

theorem writeAll_eq (files : SegmentPaths) (table : TableName) (number : UInt64) (config : Config)
    (tree : RTree) (seed : Bytes) (order : List Tuple) :
    writeAll files table number config tree seed order =
      writeIndexes files table number tree order >>= writeSidecars files config seed order := by
  unfold writeAll writeIndexes writeSidecars
  simp only [bind_assoc]
  congr 1
  funext summary
  congr 1
  funext offsets
  congr 1
  funext _
  cases tree.insertAll (spatialEntries order offsets) with
  | mk full all =>
    cases all with
    | false => rfl
    | true => simp

/-- Each of the first steps makes its file. -/
theorem exists_writeIndexes {files : SegmentPaths} (table : TableName) (number : UInt64)
    {config : Config} {tree : RTree} {seed : Bytes} {order : List Tuple}
    (accepted : Accepted tree config seed order)
    (apart : (files.indexes.map Path.location).Nodup) (room : ∀ p ∈ files.indexes, fs.Room p) :
    ∃ summary fs', (writeIndexes files table number tree order).run.run fs = (.ok summary, fs') ∧
      fs.Fills files.indexes fs' := by
  obtain ⟨summary, hsummary⟩ := accepted.summary
  obtain ⟨full, hinsert, himage⟩ := accepted.tree
  obtain ⟨hlogApart, apart⟩ := List.nodup_cons.mp apart
  obtain ⟨logRoom, room⟩ := List.forall_mem_cons.mp room
  obtain ⟨logBytes, hlog⟩ := exists_run_writeLog accepted.recorded logRoom
  obtain ⟨hindexApart, apart⟩ := List.nodup_cons.mp apart
  obtain ⟨indexRoom, room⟩ :=
    List.forall_mem_cons.mp (logRoom.create_all room hlogApart logBytes)
  obtain ⟨indexBytes, hindex⟩ := exists_run_writeIndex accepted.recorded.offset_le indexRoom
  have treeRoom := indexRoom.create_all room hindexApart indexBytes files.spatialIndex
    (List.mem_singleton.mpr rfl)
  obtain ⟨treeBytes, htree⟩ := exists_run_writeSpatialIndex himage treeRoom
  have hof : (Writing.ofResult ((Summary.ofTuples order).mapError .invalidArgument)).run.run fs =
      (.ok summary, fs) := by
    rw [hsummary]
    rfl
  refine ⟨summary, _, ?_, (((FileSystem.Fills.nil fs).create logRoom logBytes).create indexRoom
    indexBytes).create treeRoom treeBytes⟩
  unfold writeIndexes
  rw [run_bind_of_ok hof, run_bind_of_ok hlog, run_bind_of_ok hindex, hinsert]
  exact run_bind_of_ok htree

/-- Every step makes its file. -/
theorem exists_writeAll {files : SegmentPaths} (table : TableName) (number : UInt64)
    {config : Config} {tree : RTree} {seed : Bytes} {order : List Tuple}
    (accepted : Accepted tree config seed order)
    (apart : ((files.stored config.useFilter).map Path.location).Nodup)
    (room : ∀ p ∈ files.stored config.useFilter, fs.Room p) :
    ∃ fs', (writeAll files table number config tree seed order).run.run fs = (.ok (), fs') ∧
      fs.Fills (files.stored config.useFilter) fs' := by
  rw [SegmentPaths.stored, List.append_assoc, List.map_append, List.nodup_append] at apart
  obtain ⟨indexesApart, restApart, apart⟩ := apart
  rw [SegmentPaths.stored, List.append_assoc] at room
  obtain ⟨indexesRoom, restRoom⟩ := List.forall_mem_append.mp room
  obtain ⟨summary, fs₁, hindexes, fills⟩ :=
    exists_writeIndexes table number accepted indexesApart indexesRoom
  -- What comes after the first three files is away from them.
  have restRoom : ∀ p ∈ (if config.useFilter then [files.filter] else []) ++ [files.summary],
      fs₁.Room p := by
    intro p hp
    refine fills.room (restRoom p hp) fun hmem => ?_
    exact apart _ hmem _ (List.mem_map_of_mem hp) rfl
  rw [writeAll_eq, run_bind_of_ok hindexes, writeSidecars]
  cases huse : config.useFilter with
  | true =>
    rw [huse] at restApart restRoom
    obtain ⟨hfilterApart, -⟩ := List.nodup_cons.mp restApart
    obtain ⟨filterRoom, restRoom⟩ := List.forall_mem_cons.mp restRoom
    obtain ⟨f, hbuild⟩ := accepted.filter huse
    rw [← List.length_map Tuple.key] at hbuild
    rw [if_pos rfl, run_bind_of_ok (run_writeFilter hbuild filterRoom)]
    have summaryRoom := filterRoom.create_all restRoom hfilterApart f.toBytes files.summary
      (List.mem_singleton.mpr rfl)
    exact ⟨_, run_file summaryRoom _, (fills.create filterRoom f.toBytes).create summaryRoom _⟩
  | false =>
    rw [huse] at restRoom
    have summaryRoom := restRoom files.summary (List.mem_singleton.mpr rfl)
    exact ⟨_, run_file summaryRoom _, fills.create summaryRoom _⟩

/-! ## The call -/

/-- How a call ends that is to write tuples, and what it leaves. -/
inductive Ending (fs : FileSystem) (base : Path) (table : TableName) (number : UInt64)
    (config : Config) (seed : Bytes) (tuples : List Tuple) :
    Except Failure SegmentPaths → FileSystem → Prop where
  | present (h : fs.isPresent (SegmentPaths.ofNumber table base number).log = true) :
    Ending fs base table number config seed tuples
      (.error (.error (.invalidOperation (.segmentExists number table.text)))) fs
  | nodeSize (h : ¬ 2 ≤ config.maxNodeSize) :
    Ending fs base table number config seed tuples
      (.error (.error (.invalidArgument (.nodeSize config.maxNodeSize)))) fs
  | directory {cause : IoFault} {made : FileSystem}
    (hmade : fs.makeDirectories (table.directory base) = (.error cause, made)) :
    Ending fs base table number config seed tuples
      (.error (.error (.fileIo (table.directory base) 0 cause))) made
  | failed {two_le : 2 ≤ config.maxNodeSize} {cause : SegmentError} {made filled : FileSystem}
    (hmade : fs.makeDirectories (table.directory base) = (.ok (), made))
    (hall : (writeAll (SegmentPaths.ofNumber table base number) table number config
      (RTree.empty config.maxNodeSize two_le) seed (sorted tuples)).run.run made =
        (.error (.error cause), filled)) :
    Ending fs base table number config seed tuples (.error (.error cause))
      (removeAll filled (SegmentPaths.ofNumber table base number).toList)
  | broken {two_le : 2 ≤ config.maxNodeSize} {made filled : FileSystem}
    (hmade : fs.makeDirectories (table.directory base) = (.ok (), made))
    (hall : (writeAll (SegmentPaths.ofNumber table base number) table number config
      (RTree.empty config.maxNodeSize two_le) seed (sorted tuples)).run.run made =
        (.error .aborted, filled)) :
    Ending fs base table number config seed tuples (.error .aborted) filled
  | done {two_le : 2 ≤ config.maxNodeSize} {made filled : FileSystem}
    (hmade : fs.makeDirectories (table.directory base) = (.ok (), made))
    (hall : (writeAll (SegmentPaths.ofNumber table base number) table number config
      (RTree.empty config.maxNodeSize two_le) seed (sorted tuples)).run.run made =
        (.ok (), filled)) :
    Ending fs base table number config seed tuples
      (.ok (SegmentPaths.ofNumber table base number)) filled

section

variable {base : Path} {table : TableName} {number : UInt64} {config : Config} {seed : Bytes}
  {tuples : List Tuple}

/-- A segment whose log is there is left as it is. -/
theorem run_write_of_present
    (present : fs.isPresent (SegmentPaths.ofNumber table base number).log = true) :
    (write base table number config seed tuples).run.run fs =
      (.error (.error (.invalidOperation (.segmentExists number table.text))), fs) := by
  unfold write
  rw [run_bind_of_ok (run_get fs)]
  simp only [present, if_true]
  rfl

section

variable (absent : fs.isPresent (SegmentPaths.ofNumber table base number).log = false)

include absent

theorem run_write_of_nodeSize (small : ¬ 2 ≤ config.maxNodeSize) :
    (write base table number config seed tuples).run.run fs =
      (.error (.error (.invalidArgument (.nodeSize config.maxNodeSize))), fs) := by
  unfold write
  rw [run_bind_of_ok (run_get fs)]
  simp only [absent, Bool.false_eq_true, if_false]
  rw [RTree.ofMaxNodeSize, dif_neg small]
  rfl

variable (two_le : 2 ≤ config.maxNodeSize)

/-- Where the log is not there and the node size is one, the directory of the table comes next. -/
theorem run_write_of_absent :
    (write base table number config seed tuples).run.run fs =
      (makeDirectory (table.directory base) >>= fun _ => do
        Writing.onError (writeAll (SegmentPaths.ofNumber table base number) table number config
          (RTree.empty config.maxNodeSize two_le) seed (sorted tuples))
            (removeAll · (SegmentPaths.ofNumber table base number).toList)
        return SegmentPaths.ofNumber table base number).run.run fs := by
  have hnew : (Writing.ofResult
      ((RTree.ofMaxNodeSize config.maxNodeSize).mapError .invalidArgument)).run.run fs =
        (.ok (RTree.empty config.maxNodeSize two_le), fs) := by
    rw [RTree.ofMaxNodeSize, dif_pos two_le]
    rfl
  unfold write
  rw [run_bind_of_ok (run_get fs)]
  simp only [absent, Bool.false_eq_true, if_false]
  exact run_bind_of_ok hnew

/-- Once the directory is there the files are written, and removed after an error. -/
theorem run_write {made left : FileSystem} {result : Except Failure Unit}
    (hmade : fs.makeDirectories (table.directory base) = (.ok (), made))
    (hkept : (Writing.onError (writeAll (SegmentPaths.ofNumber table base number) table number
      config (RTree.empty config.maxNodeSize two_le) seed (sorted tuples))
        (removeAll · (SegmentPaths.ofNumber table base number).toList)).run.run made =
          (result, left)) :
    (write base table number config seed tuples).run.run fs =
      (result.map fun _ => SegmentPaths.ofNumber table base number, left) := by
  have hdirectory : (makeDirectory (table.directory base)).run.run fs = (.ok (), made) := by
    rw [run_makeDirectory, hmade]
    rfl
  rw [run_write_of_absent absent two_le, run_bind_of_ok hdirectory, run_bind, hkept]
  cases result <;> rfl

end

/-- Every call ends in one of these ways. -/
theorem ending_of_write {result : Except Failure SegmentPaths} {left : FileSystem}
    (h : (write base table number config seed tuples).run.run fs = (result, left)) :
    Ending fs base table number config seed tuples result left := by
  cases hpresent : fs.isPresent (SegmentPaths.ofNumber table base number).log with
  | true =>
    rw [run_write_of_present hpresent] at h
    cases h
    exact .present hpresent
  | false =>
    by_cases two_le : 2 ≤ config.maxNodeSize
    · cases hmade : fs.makeDirectories (table.directory base) with
      | mk done made =>
        cases done with
        | error cause =>
          rw [run_write_of_absent hpresent two_le, run_bind, run_makeDirectory, hmade] at h
          cases h
          exact .directory hmade
        | ok _ =>
          cases hall : (writeAll (SegmentPaths.ofNumber table base number) table number config
              (RTree.empty config.maxNodeSize two_le) seed (sorted tuples)).run.run made with
          | mk all filled =>
            have hkept := Writing.run_onError (writeAll (SegmentPaths.ofNumber table base number)
              table number config (RTree.empty config.maxNodeSize two_le) seed (sorted tuples))
                (removeAll · (SegmentPaths.ofNumber table base number).toList) made
            rw [hall] at hkept
            obtain (cause | _) | _ := all
            · rw [run_write hpresent two_le hmade hkept] at h
              cases h
              exact .failed hmade hall
            · rw [run_write hpresent two_le hmade hkept] at h
              cases h
              exact .broken hmade hall
            · rw [run_write hpresent two_le hmade hkept] at h
              cases h
              exact .done hmade hall
    · rw [run_write_of_nodeSize hpresent two_le] at h
      cases h
      exact .nodeSize two_le

/-- The call gives the paths of the files if the directory can be made, has room for them and the
tuples are accepted in the order of their keys. -/
theorem exists_write {made : FileSystem} (two_le : 2 ≤ config.maxNodeSize)
    (absent : fs.isPresent (SegmentPaths.ofNumber table base number).log = false)
    (hmade : fs.makeDirectories (table.directory base) = (.ok (), made))
    (room : ∀ p ∈ (SegmentPaths.ofNumber table base number).stored config.useFilter, made.Room p)
    (accepted : Accepted (RTree.empty config.maxNodeSize two_le) config seed (sorted tuples)) :
    ∃ fs', (write base table number config seed tuples).run.run fs =
        (.ok (SegmentPaths.ofNumber table base number), fs') ∧
      made.Fills ((SegmentPaths.ofNumber table base number).stored config.useFilter) fs' := by
  have apart := (SegmentPaths.nodup_locations table base number).sublist
    (((SegmentPaths.ofNumber table base number).stored_sublist config.useFilter).map Path.location)
  obtain ⟨fs', hall, fills⟩ := exists_writeAll table number accepted apart room
  have hkept := Writing.run_onError (writeAll (SegmentPaths.ofNumber table base number) table
    number config (RTree.empty config.maxNodeSize two_le) seed (sorted tuples))
      (removeAll · (SegmentPaths.ofNumber table base number).toList) made
  rw [hall] at hkept
  exact ⟨fs', run_write absent two_le hmade hkept, fills⟩

end

/-- In an empty file system there is room for the files of a table. -/
theorem room_empty :
    let table : TableName := ⟨"g", "t", none, by decide, by decide⟩
    ∃ made, FileSystem.empty.makeDirectories (table.directory ⟨"db"⟩) = (.ok (), made) ∧
      ∀ p ∈ (SegmentPaths.ofNumber table ⟨"db"⟩ 1).toList, made.Room p := by
  intro table
  have hdone : (FileSystem.empty.makeDirectories (table.directory ⟨"db"⟩)).1.isOk = true := by
    decide +kernel
  have hwrites : ∀ p ∈ (SegmentPaths.ofNumber table ⟨"db"⟩ 1).toList,
      ((FileSystem.empty.makeDirectories (table.directory ⟨"db"⟩)).2.write p []).isOk = true := by
    decide +kernel
  have hnew : FileSystem.NoNewFile FileSystem.empty
      (FileSystem.empty.makeDirectories (table.directory ⟨"db"⟩)).2 :=
    FileSystem.noNewFile_makeDirectories _
  cases hmade : FileSystem.empty.makeDirectories (table.directory ⟨"db"⟩) with
  | mk result made =>
    rw [hmade] at hdone hwrites hnew
    cases result with
    | error cause => cases hdone
    | ok _ =>
      refine ⟨made, rfl, fun p hp => ?_⟩
      exact ((FileSystem.vacant_empty p.location).of_noNewFile hnew).room_of_isOk (hwrites p hp)

theorem exists_write_empty {config : Config} {seed : Bytes} {tuples : List Tuple}
    (two_le : 2 ≤ config.maxNodeSize)
    (accepted : Accepted (RTree.empty config.maxNodeSize two_le) config seed (sorted tuples)) :
    ∃ fs', (write ⟨"db"⟩ ⟨"g", "t", none, by decide, by decide⟩ 1 config seed tuples).run.run
      FileSystem.empty =
        (.ok (SegmentPaths.ofNumber ⟨"g", "t", none, by decide, by decide⟩ ⟨"db"⟩ 1), fs') := by
  obtain ⟨made, hmade, room⟩ := room_empty
  obtain ⟨fs', hrun, -⟩ := exists_write two_le (by decide +kernel) hmade
    (fun p hp => room p ((SegmentPaths.stored_sublist _ _).subset hp)) accepted
  exact ⟨fs', hrun⟩

/-- Two tuples, one of them with a box, in the order of their keys. -/
theorem accepted_two (cacheCapacity : Nat) (mode : ReadMode) (rate : Float) (seed : Bytes) :
    Accepted (RTree.empty 2 (Nat.le_refl 2)) ⟨cacheCapacity, mode, false, rate, 2⟩ seed
      (sorted [⟨"b", ⟨[⟨⟨0⟩, ⟨0x3ff0000000000000⟩, by decide⟩]⟩, [], 2, 4⟩,
        ⟨"a", Box.fullSpace, [7], 1, 3⟩]) := by
  have hinsert : (RTree.empty 2 (by decide)).insertAll
      [⟨⟨[⟨⟨0⟩, ⟨0x3ff0000000000000⟩, by decide⟩]⟩, 38⟩] =
        (⟨[⟨0, _, none, .leaf [_]⟩], 2, 1, 1, _⟩, true) :=
    congrArg (·, true) (RTree.insert_empty (by decide) rfl)
  have sound := ((RTree.sound_empty 2 (by decide)).insertAll hinsert).1
  have storable := sound.storable_of_size (by decide) (by decide)
  rw [sorted_pair_of_gt (by decide)]
  refine ⟨⟨fun t ht => ?_, by decide⟩, ⟨_, rfl⟩, ⟨_, hinsert, ?_⟩, fun h => ?_⟩
  · rcases List.mem_cons.mp ht with rfl | ht
    · exact ⟨⟨by decide, by decide, by decide⟩, by decide⟩
    · obtain rfl := List.mem_singleton.mp ht
      exact ⟨⟨by decide, by decide, by decide⟩, by decide⟩
  · rw [storable.image_eq]
  · cases h

theorem exists_write_two (cacheCapacity : Nat) (mode : ReadMode) (rate : Float) (seed : Bytes) :
    ∃ fs', (write ⟨"db"⟩ ⟨"g", "t", none, by decide, by decide⟩ 1
      ⟨cacheCapacity, mode, false, rate, 2⟩ seed
        [⟨"b", ⟨[⟨⟨0⟩, ⟨0x3ff0000000000000⟩, by decide⟩]⟩, [], 2, 4⟩,
          ⟨"a", Box.fullSpace, [7], 1, 3⟩]).run.run FileSystem.empty =
        (.ok (SegmentPaths.ofNumber ⟨"g", "t", none, by decide, by decide⟩ ⟨"db"⟩ 1), fs') :=
  exists_write_empty (Nat.le_refl 2) (accepted_two cacheCapacity mode rate seed)

end Segment

end SpatialSegment
