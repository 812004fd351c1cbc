import SpatialSegment.Proofs.Segment.Damaged

/-!
# What is written over files that were left

A segment is written where its log is not, and its other files are written over if they are there.
All of it is found then, with one exception: when no filter is written the file of one stays, and a
reader with a filter asks it, though it knows nothing of the keys.
-/

namespace SpatialSegment

namespace Gate

/-- The gate from what is at the location of a filter. -/
def ofContent (content : Option Bytes) : Gate :=
  match content with
  | none => absent
  | some bs => (ofBytes bs).toOption.getD absent

/-- What a search for a key gives behind the gate. -/
def guard (g : Gate) (key : String) (found : List Tuple) : Except Failure (List Tuple) :=
  match g.passes? key with
  | none => .error .aborted
  | some false => .ok []
  | some true => .ok found

/-- A gate that stops only keys that nothing is found for makes no difference. -/
theorem guard_eq_ok {g : Gate} {key : String} {found : List Tuple}
    (h : ∃ passes, g.passes? key = some passes ∧ (passes = false → found = [])) :
    g.guard key found = .ok found := by
  obtain ⟨passes, hpasses, hstopped⟩ := h
  rw [guard, hpasses]
  cases passes with
  | false => rw [hstopped rfl]
  | true => rfl

theorem guard_of_stopped {g : Gate} {key : String} {found : List Tuple}
    (h : g.passes? key = some false) : g.guard key found = .ok [] := by
  rw [guard, h]

end Gate

namespace Segment

variable {fs fs' : FileSystem} {order : List Tuple}

/-- A filter that is read comes from what is at its location. -/
theorem loadGate_of_leads {path : Path} (leads : fs.Leads path path.location) :
    loadGate fs path = Gate.ofContent (fs.contentAt path.location) := by
  rw [leads.contentAt_eq, loadGate]
  cases fs.read path with
  | error cause => rfl
  | ok bs =>
    dsimp only [Except.toOption, Gate.ofContent]
    cases Gate.ofBytes bs <;> rfl

/-- Beside the other files there is a place for that of the filter. -/
theorem Indexed.leads_filter {base : Path} {table : TableName} {number : UInt64}
    (indexed : Indexed fs (SegmentPaths.ofNumber table base number) order) :
    fs.Leads (SegmentPaths.ofNumber table base number).filter
      (SegmentPaths.ofNumber table base number).filter.location := by
  obtain ⟨summary, -, l, id, leads, -⟩ := indexed.summary
  refine leads.beside (table.directory_ne_nil base) ?_ ?_ ?_ ?_
  · exact SegmentPaths.isFileName_of_suffix (SegmentPaths.slash_notMem_suffix (by decide))
  · exact SegmentPaths.isFileName_of_suffix (SegmentPaths.slash_notMem_suffix (by decide))
  · have hle : SegmentPaths.filterSuffix.utf8ByteSize ≤
        SegmentPaths.summarySuffix.utf8ByteSize := by
      decide
    rw [String.utf8ByteSize_append, String.utf8ByteSize_append]
    omega
  · intro hzero
    rw [String.toList_append, List.mem_append] at hzero ⊢
    rcases hzero with hstem | hsuffix
    · exact Or.inl hstem
    · exact absurd hsuffix (by decide)

/-- A search finds what it would without a gate, if the gate lets it. -/
theorem loadTuples_of_absent {s : Segment} {key : String} {found : List Tuple}
    (h : loadTuples fs { s with gate := Gate.absent } key = .ok found) :
    s.loadTuples fs key = s.gate.guard key found := by
  rw [loadTuples, Gate.guard]
  cases s.gate.passes? key with
  | none => rfl
  | some passes =>
    cases passes with
    | false => rfl
    | true => exact h

/-- The tuples with a key are found behind the gate of the reader. -/
theorem Indexed.exists_guarded {base : Path} {table : TableName} {number : UInt64} {reader : Config}
    (indexed : Indexed fs (SegmentPaths.ofNumber table base number) order)
    (ordered : KeySearch.Ordered (order.map Tuple.key))
    (capacity : reader.cacheCapacity ≤ RecentKeys.maxCapacity) :
    ∃ opened, open? fs base table number reader = .ok opened ∧
      ∀ s, Reached fs opened s → ∀ key, ((tuplesOf fs key).run.run s).1 =
        (if reader.useFilter then loadGate fs (SegmentPaths.ofNumber table base number).filter
          else Gate.absent).guard key (order.filter fun t => t.key = key) := by
  obtain ⟨opened, hopen, serves, hgate⟩ := indexed.exists_open capacity
  refine ⟨opened, hopen, fun s reached key => ?_⟩
  have unchanged := (unchanged_of_open hopen opened.gate).of_reached reached
  have hload := (answers_loadTuples key _ serves.unchanged).1.symm.trans
    (serves.tuplesOf_eq ordered key)
  rw [(answers_loadTuples key s unchanged).1, ← hgate]
  exact loadTuples_of_absent hload

/-! ## A filter without keys is left -/

/-- A filter of one byte that no key has been added to. -/
def leftFilter : Filter := ⟨List.replicate 32 0, 1, #[0]⟩

theorem storable_leftFilter : leftFilter.Storable :=
  ⟨rfl, by decide, by decide, by decide⟩

/-- The directory of a table, and in it nothing but the file of a filter. -/
def leftDirectory : FileSystem :=
  let table : TableName := ⟨"g", "t", none, by decide, by decide⟩
  (FileSystem.empty.makeDirectories (table.directory ⟨"db"⟩)).2.create
    (SegmentPaths.ofNumber table ⟨"db"⟩ 1).filter.location leftFilter.toBytes

theorem alone_leftDirectory (l : Location) : leftDirectory.Alone l :=
  FileSystem.alone_create (fun l' => (FileSystem.vacant_empty l').of_noNewFile
    (FileSystem.noNewFile_makeDirectories _)) _ _ l

theorem contentAt_leftDirectory :
    leftDirectory.contentAt (SegmentPaths.ofNumber ⟨"g", "t", none, by decide, by decide⟩ ⟨"db"⟩
      1).filter.location = some leftFilter.toBytes := by
  obtain ⟨made, hmade, room⟩ := room_empty
  have hleft : leftDirectory = made.create _ leftFilter.toBytes :=
    congrArg (fun done => FileSystem.create (Prod.snd done) _ leftFilter.toBytes) hmade
  have hstores := ((room _ (SegmentPaths.filter_mem_toList _)).adds leftFilter.toBytes).new
  exact (congrArg (FileSystem.contentAt · _) hleft).trans hstores.contentAt

/-- Two tuples are written without a filter where one is left. -/
theorem exists_write_over (seed : Bytes) :
    ∃ left, (write ⟨"db"⟩ ⟨"g", "t", none, by decide, by decide⟩ 1 ⟨0, .buffered, false, 0.01, 2⟩
      seed [⟨"b", ⟨[⟨⟨0⟩, ⟨0x3ff0000000000000⟩, by decide⟩]⟩, [], 2, 4⟩,
        ⟨"a", Box.fullSpace, [7], 1, 3⟩]).run.run leftDirectory =
      (.ok (SegmentPaths.ofNumber ⟨"g", "t", none, by decide, by decide⟩ ⟨"db"⟩ 1), left) := by
  have hdone : (leftDirectory.makeDirectories (TableName.directory
      ⟨"g", "t", none, by decide, by decide⟩ ⟨"db"⟩)).1.isOk = true := by
    decide +kernel
  have hwrites : ∀ p ∈ (SegmentPaths.ofNumber ⟨"g", "t", none, by decide, by decide⟩ ⟨"db"⟩
      1).stored false, ((leftDirectory.makeDirectories (TableName.directory
        ⟨"g", "t", none, by decide, by decide⟩ ⟨"db"⟩)).2.write p []).isOk = true := by
    decide +kernel
  have habsent : leftDirectory.isPresent (SegmentPaths.ofNumber
      ⟨"g", "t", none, by decide, by decide⟩ ⟨"db"⟩ 1).log = false := by
    decide +kernel
  have hnew : FileSystem.NoNewFile leftDirectory (leftDirectory.makeDirectories
      (TableName.directory ⟨"g", "t", none, by decide, by decide⟩ ⟨"db"⟩)).2 :=
    FileSystem.noNewFile_makeDirectories _
  cases hmade : leftDirectory.makeDirectories (TableName.directory
      ⟨"g", "t", none, by decide, by decide⟩ ⟨"db"⟩) with
  | mk result made =>
    rw [hmade] at hdone hwrites hnew
    cases result with
    | error cause => cases hdone
    | ok _ =>
      have room : ∀ p ∈ (SegmentPaths.ofNumber ⟨"g", "t", none, by decide, by decide⟩ ⟨"db"⟩
          1).stored false, made.Room p := by
        intro p hp
        have vacant : leftDirectory.Vacant p.location :=
          ((FileSystem.vacant_empty _).of_noNewFile
            (FileSystem.noNewFile_makeDirectories _)).create
              (SegmentPaths.location_ne_filter (SegmentPaths.nodup_locations _ _ _) p hp)
        exact (vacant.of_noNewFile hnew).room_of_isOk (hwrites p hp)
      have two_le : 2 ≤ Config.maxNodeSize ⟨0, .buffered, false, 0.01, 2⟩ := Nat.le_refl 2
      obtain ⟨left, hrun, -⟩ :=
        exists_write two_le habsent hmade room (accepted_two 0 .buffered 0.01 seed)
      exact ⟨left, hrun⟩

/-! ## Searches -/

/-- After a write without an error over files that were left, each of them at one location only,
every search for a key finds the tuples that were given with it, in the order given. But if the
writer wrote no filter, a reader with one asks the gate that was left. There must be room for the
cache. -/
theorem found_over_leftovers (base : Path) (table : TableName) (number : UInt64)
    (writer reader : Config) (seed : Bytes) (tuples : List Tuple) (fs fs' : FileSystem)
    (files : SegmentPaths) (full : seed.length = 32)
    (alone : ∀ p ∈ (SegmentPaths.ofNumber table base number).toList, fs.Alone p.location)
    (written : (write base table number writer seed tuples).run.run fs = (.ok files, fs')) :
    (RecentKeys.maxCapacity < reader.cacheCapacity →
      open? fs' base table number reader = .error .aborted) ∧
    (reader.cacheCapacity ≤ RecentKeys.maxCapacity →
      ∃ opened, open? fs' base table number reader = .ok opened ∧
        ∀ s, Reached fs' opened s → ∀ key,
          ((tuplesOf fs' key).run.run s).1 =
            if reader.useFilter = true ∧ writer.useFilter = false then
              (Gate.ofContent (fs.contentAt files.filter.location)).guard key
                (tuples.filter fun t => t.key = key)
            else .ok (tuples.filter fun t => t.key = key)) := by
  obtain ⟨rfl, indexed, left⟩ := indexed_of_write full alone written
  refine ⟨indexed.open_aborted, fun capacity => ?_⟩
  have hsorted := sortedByKey_sorted tuples
  obtain ⟨opened, hopen, hguarded⟩ := indexed.exists_guarded hsorted.ordered capacity
  refine ⟨opened, hopen, fun s reached key => ?_⟩
  rw [hguarded s reached key, hsorted.stable]
  by_cases hleft : reader.useFilter = true ∧ writer.useFilter = false
  · rw [if_pos hleft, if_pos hleft.1, loadGate_of_leads indexed.leads_filter, left.kept hleft.2]
  · rw [if_neg hleft]
    refine Gate.guard_eq_ok ?_
    cases hreader : reader.useFilter with
    | false => exact ⟨true, rfl, fun h => by cases h⟩
    | true =>
      have hwriter : writer.useFilter = true := by
        by_contra hunused
        exact hleft ⟨hreader, Bool.eq_false_iff.mpr hunused⟩
      obtain ⟨passes, hpasses, hstopped⟩ :=
        gate_of_written (Or.inr (left.stored hwriter)) true key
      refine ⟨passes, hpasses, fun hfalse => List.filter_eq_nil_iff.mpr fun t ht hkey => ?_⟩
      exact hstopped hfalse t (hsorted.perm.symm.subset ht) (of_decide_eq_true hkey)

/-- Without a filter a reader finds the tuple with the key. -/
theorem found_over_leftovers_two :
    let table : TableName := ⟨"g", "t", none, by decide, by decide⟩
    let files := SegmentPaths.ofNumber table ⟨"db"⟩ 1
    let reader : Config := ⟨1, .mapped, false, 0.01, 2⟩
    ∃ left opened, (List.replicate 32 (0 : UInt8)).length = 32 ∧
      (∀ p ∈ files.toList, leftDirectory.Alone p.location) ∧
      (write ⟨"db"⟩ table 1 ⟨0, .buffered, false, 0.01, 2⟩ (List.replicate 32 0)
        [⟨"b", ⟨[⟨⟨0⟩, ⟨0x3ff0000000000000⟩, by decide⟩]⟩, [], 2, 4⟩,
          ⟨"a", Box.fullSpace, [7], 1, 3⟩]).run.run leftDirectory = (.ok files, left) ∧
      reader.cacheCapacity ≤ RecentKeys.maxCapacity ∧
      open? left ⟨"db"⟩ table 1 reader = .ok opened ∧
      ((tuplesOf left "a").run.run opened).1 = .ok [⟨"a", Box.fullSpace, [7], 1, 3⟩] := by
  intro table files reader
  obtain ⟨left, hrun⟩ := exists_write_over (List.replicate 32 0)
  have full : (List.replicate 32 (0 : UInt8)).length = 32 := List.length_replicate
  have alone : ∀ p ∈ files.toList, leftDirectory.Alone p.location :=
    fun p _ => alone_leftDirectory p.location
  have capacity : reader.cacheCapacity ≤ RecentKeys.maxCapacity := by decide
  obtain ⟨opened, hopen, hfound⟩ := (found_over_leftovers ⟨"db"⟩ table 1
    ⟨0, .buffered, false, 0.01, 2⟩ reader (List.replicate 32 0) _ leftDirectory left files full
    alone hrun).2 capacity
  refine ⟨left, opened, full, alone, hrun, capacity, hopen, (hfound opened .opened "a").trans ?_⟩
  rw [if_neg fun h => Bool.false_ne_true h.1]
  rfl

/-- With a filter a reader does not find it: the gate that was left stops the key. -/
theorem not_found_behind_leftover :
    let table : TableName := ⟨"g", "t", none, by decide, by decide⟩
    let files := SegmentPaths.ofNumber table ⟨"db"⟩ 1
    ∃ left opened, leftDirectory.isPresent files.log = false ∧
      (write ⟨"db"⟩ table 1 ⟨0, .buffered, false, 0.01, 2⟩ (List.replicate 32 0)
        [⟨"b", ⟨[⟨⟨0⟩, ⟨0x3ff0000000000000⟩, by decide⟩]⟩, [], 2, 4⟩,
          ⟨"a", Box.fullSpace, [7], 1, 3⟩]).run.run leftDirectory = (.ok files, left) ∧
      open? left ⟨"db"⟩ table 1 Config.default = .ok opened ∧
      ((tuplesOf left "a").run.run opened).1 = .ok [] := by
  intro table files
  obtain ⟨left, hrun⟩ := exists_write_over (List.replicate 32 0)
  obtain ⟨-, indexed, kept⟩ := indexed_of_write List.length_replicate
    (fun p _ => alone_leftDirectory p.location) hrun
  have capacity : Config.default.cacheCapacity ≤ RecentKeys.maxCapacity := by decide
  obtain ⟨opened, hopen, hguarded⟩ :=
    indexed.exists_guarded (sortedByKey_sorted _).ordered capacity
  have hgate : loadGate left files.filter = ⟨some leftFilter⟩ := by
    rw [loadGate_of_leads indexed.leads_filter, kept.kept rfl, contentAt_leftDirectory]
    simp only [Gate.ofContent, Gate.ofBytes_of_storable storable_leftFilter]
    rfl
  have hstopped : leftFilter.contains? "a" = some false :=
    leftFilter.containsWith?_of_clear (by decide) (by decide)
      (fun b hb => by simpa [leftFilter] using hb) "a"
  refine ⟨left, opened, by decide +kernel, hrun, hopen, (hguarded opened .opened "a").trans ?_⟩
  rw [if_pos (show Config.default.useFilter = true from rfl), hgate]
  exact Gate.guard_of_stopped hstopped

end Segment

end SpatialSegment
