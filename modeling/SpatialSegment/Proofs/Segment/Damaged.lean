import SpatialSegment.Proofs.KeyIndex.Unordered
import SpatialSegment.Proofs.Log.Keys
import SpatialSegment.Proofs.Segment.ReadBack

/-!
# No other key is found

The files of a segment may be damaged: offsets in any order, repeated, or misplaced. Reads answer
what is loaded all the same, and a key is only loaded with tuples that have it.
-/

namespace SpatialSegment

namespace Segment

variable {fs : FileSystem} {opened s : Segment}

/-- A segment that has been opened has no cache or an empty one. -/
theorem unchanged_of_open {base : Path} {table : TableName} {number : UInt64} {config : Config}
    (h : open? fs base table number config = .ok opened) (gate : Gate) :
    Unchanged fs { opened with gate } { opened with gate } := by
  obtain ⟨_, -, h⟩ := bind_eq_ok.mp h
  obtain ⟨_, -, h⟩ := bind_eq_ok.mp h
  obtain ⟨index, hindex, h⟩ := bind_eq_ok.mp h
  obtain ⟨_, -, h⟩ := bind_eq_ok.mp h
  obtain ⟨_, -, h⟩ := bind_eq_ok.mp h
  cases h
  obtain ⟨-, hfaithful⟩ := CachedIndex.of_activate hindex (KeyIndex.faithfulCache_none fs _)
  exact ⟨rfl, rfl, rfl, rfl, hfaithful⟩

/-- The files of a segment that has been opened have started. -/
theorem index_of_open {base : Path} {table : TableName} {number : UInt64} {config : Config}
    (h : open? fs base table number config = .ok opened) :
    ∃ logFile indexFile,
      (GuardedFile.new .tupleLog (SegmentPaths.ofNumber table base number).log
        config.mode).init fs = (.ok (), logFile) ∧
      (GuardedFile.new .keyIndex (SegmentPaths.ofNumber table base number).keyIndex
        config.mode).init fs = (.ok (), indexFile) ∧
      opened.index.index = ⟨indexFile, ⟨logFile⟩⟩ := by
  unfold open? at h
  generalize SegmentPaths.ofNumber table base number = files at h ⊢
  simp only [CachedIndex.init, SharedFile.init] at h
  obtain ⟨_, hlog, h⟩ := bind_eq_ok.mp h
  obtain ⟨_, hindex, h⟩ := bind_eq_ok.mp h
  obtain ⟨index, hactivate, h⟩ := bind_eq_ok.mp h
  obtain ⟨_, -, h⟩ := bind_eq_ok.mp h
  obtain ⟨_, -, h⟩ := bind_eq_ok.mp h
  cases h
  obtain ⟨hsame, -⟩ := CachedIndex.of_activate hactivate (KeyIndex.faithfulCache_none fs _)
  exact ⟨_, _, Prod.ext (mapError_eq_ok.mp hlog) rfl, Prod.ext (mapError_eq_ok.mp hindex) rfl,
    hsame⟩

theorem gate_of_open {base : Path} {table : TableName} {number : UInt64} {config : Config}
    (h : open? fs base table number config = .ok opened) :
    opened.gate = if config.useFilter
      then loadGate fs (SegmentPaths.ofNumber table base number).filter else Gate.absent := by
  obtain ⟨_, -, h⟩ := bind_eq_ok.mp h
  obtain ⟨_, -, h⟩ := bind_eq_ok.mp h
  obtain ⟨_, -, h⟩ := bind_eq_ok.mp h
  obtain ⟨_, -, h⟩ := bind_eq_ok.mp h
  obtain ⟨_, -, h⟩ := bind_eq_ok.mp h
  cases h
  rfl

/-! ## What is found -/

/-- A record whose key is read is read as a tuple with that key, if it can be read as one. -/
theorem exists_tuple_of_keyAt {log : Log} {o : Nat} {key : String} {answer : Option Tuple}
    (hkey : log.keyAt fs o = .ok (some key)) (h : log.tupleAt fs o = .ok answer) :
    ∃ t, answer = some t ∧ t.key = key := by
  obtain ⟨v, -, uses⟩ := GuardedFile.exists_of_use hkey
  cases answer with
  | none =>
    rw [Log.tupleAt, uses] at h
    cases hread : log.announcedLenAt fs v o >>= log.readRecord fs v o with
    | error cause =>
      rw [hread] at h
      cases h
    | ok t =>
      rw [hread] at h
      cases h
  | some t =>
    have hown := (Log.keyAt_of_tupleAt h).symm.trans hkey
    exact ⟨t, rfl, Option.some.inj (Except.ok.inj hown)⟩

theorem forall₂_loadAll {x : KeyIndex} {key : String} {ordinals offsets : List Nat}
    {found : List Tuple}
    (leads : List.Forall₂
      (fun i o => x.offsetAt fs i = .ok (some o) ∧ x.log.keyAt fs o = .ok (some key))
      ordinals offsets)
    (h : loadAll fs x.log offsets = .ok found) :
    List.Forall₂ (fun i t => t.key = key ∧ x.tupleAt fs i = .ok (some t)) ordinals found := by
  induction leads generalizing found with
  | nil =>
    cases h
    exact .nil
  | @cons i o ordinals offsets hlead _ ih =>
    obtain ⟨ho, hkey⟩ := hlead
    obtain ⟨answer, hanswer, h⟩ := bind_eq_ok.mp h
    have hread := mapError_eq_ok.mp hanswer
    obtain ⟨t, rfl, rfl⟩ := exists_tuple_of_keyAt hkey hread
    obtain ⟨rest, hrest, h⟩ := bind_eq_ok.mp h
    cases h
    refine .cons ⟨rfl, ?_⟩ (ih hrest)
    rw [KeyIndex.tupleAt, ho]
    exact hread

/-- The tuples that are loaded under a key are those of neighbours in the index. -/
theorem exists_of_loadTuples {key : String} {found : List Tuple}
    (h : s.loadTuples fs key = .ok found) :
    ∃ first count, List.Forall₂ (fun i t => t.key = key ∧ s.index.index.tupleAt fs i = .ok (some t))
      (List.range' first count) found := by
  rw [loadTuples] at h
  cases hpasses : s.gate.passes? key with
  | none =>
    rw [hpasses] at h
    cases h
  | some passes =>
    rw [hpasses] at h
    cases passes with
    | false =>
      cases h
      exact ⟨0, 0, .nil⟩
    | true =>
      obtain ⟨offsets, hoffsets, h⟩ := bind_eq_ok.mp h
      obtain ⟨first, count, hleads⟩ := KeyIndex.exists_of_loadPositions (mapError_eq_ok.mp hoffsets)
      exact ⟨first, count, forall₂_loadAll hleads h⟩

/-- What is found under a key has the key, whatever the files hold and however the segment was read
before: the tuples found are those of neighbours in the index. -/
theorem found_under_key (fs : FileSystem) (base : Path) (table : TableName) (number : UInt64)
    (config : Config) (opened : Segment) (hopen : open? fs base table number config = .ok opened)
    (gate : Gate) (s : Segment) (reached : Reached fs { opened with gate } s) (key : String)
    (found : List Tuple) (left : Segment) (h : (tuplesOf fs key).run.run s = (.ok found, left)) :
    (∀ t ∈ found, t.key = key) ∧ ∃ first count,
      List.Forall₂ (fun i t => opened.index.index.tupleAt fs i = .ok (some t))
        (List.range' first count) found := by
  have unchanged := (unchanged_of_open hopen gate).of_reached reached
  have hload := (answers_loadTuples key s unchanged).1
  rw [h] at hload
  obtain ⟨first, count, hfound⟩ := exists_of_loadTuples hload.symm
  obtain ⟨hkeys, hread⟩ := (List.forall₂_and_left found _).mp hfound.flip
  exact ⟨hkeys, first, count, hread.flip⟩

/-! ## A key index in the wrong order -/

/-- In an empty file system the files of a segment can be given any contents. -/
theorem exists_stores_empty (log index tree filter summary : Bytes) :
    ∃ fs : FileSystem,
      let files := SegmentPaths.ofNumber ⟨"g", "t", none, by decide, by decide⟩ ⟨"db"⟩ 1
      fs.Stores files.log log ∧ fs.Stores files.keyIndex index ∧
        fs.Stores files.spatialIndex tree ∧ fs.Stores files.filter filter ∧
        fs.Stores files.summary summary := by
  obtain ⟨made, -, room⟩ := room_empty
  have apart :=
    SegmentPaths.nodup_locations ⟨"g", "t", none, by decide, by decide⟩ ⟨"db"⟩ 1
  dsimp only at room ⊢
  generalize SegmentPaths.ofNumber _ ⟨"db"⟩ 1 = files at room apart ⊢
  obtain ⟨fs, -, stores⟩ := @FileSystem.exists_stores made
    [(files.log, log), (files.keyIndex, index), (files.spatialIndex, tree), (files.filter, filter),
      (files.summary, summary)]
    (fun e he => room e.1 (List.mem_map_of_mem he)) apart
  simp only [List.forall_mem_cons] at stores
  obtain ⟨hlog, hindex, htree, hfilter, hsummary, -⟩ := stores
  exact ⟨fs, hlog, hindex, htree, hfilter, hsummary⟩

/-- A segment can be opened whose key index has the greater key first. -/
theorem exists_open_unordered :
    ∃ fs opened, open? fs ⟨"db"⟩ ⟨"g", "t", none, by decide, by decide⟩ 1
        ⟨1, .buffered, true, 0.01, 2⟩ = .ok opened ∧
      KeyIndex.Points fs opened.index.index [38, 10] ["b", "a"] ∧
      opened.index.log.file.Shows fs KeyIndex.logInOrder := by
  have sound := RTree.sound_empty 2 (by decide)
  have himage : (RTree.empty 2 (by decide)).image.2 = .ok () := by
    rw [(sound.storable_of_size (by decide) (by decide)).image_eq]
  obtain ⟨t, htree, -⟩ := sound.exists_ofBytes himage
  let summary : Summary := ⟨2, 1, 2, 4, Box.fullSpace⟩
  obtain ⟨fs, hlog, hindex, hspatial, -, hsummary⟩ := exists_stores_empty KeyIndex.logInOrder
    (KeyIndex.offsetBytes [38, 10]) (RTree.empty 2 (by decide)).image.1 [] summary.toBytes
  generalize hfiles : SegmentPaths.ofNumber _ ⟨"db"⟩ 1 = files at hlog hindex hspatial hsummary
  have htree' : RTree.load fs files.spatialIndex = .ok t := by
    rw [RTree.load, hspatial.read]
    exact mapError_eq_ok.mpr htree
  have hsummary' : loadSummary fs files.summary = .ok summary := by
    have hread := Summary.ofBytes_toBytes (s := summary) (by decide) []
    rw [List.append_nil] at hread
    rw [loadSummary, hsummary.read]
    exact mapError_eq_ok.mpr hread
  rw [KeyIndex.logInOrder, List.append_assoc] at hlog
  subst hfiles
  have capacity : (⟨1, .buffered, true, 0.01, 2⟩ : Config).cacheCapacity ≤
      RecentKeys.maxCapacity := by decide
  obtain ⟨opened, hopen, hlog, hindex, -⟩ :=
    exists_open_of_stores hlog hindex (by decide) htree' hsummary' capacity
  rw [← List.append_assoc] at hlog
  exact ⟨fs, opened, hopen, KeyIndex.points_unordered hindex hlog, hlog⟩

theorem loadTuples_unordered (points : KeyIndex.Points fs s.index.index [38, 10] ["b", "a"])
    (hlog : s.index.log.file.Shows fs KeyIndex.logInOrder) (hgate : s.gate = Gate.absent) :
    s.loadTuples fs "b" = .ok [⟨"b", Box.fullSpace, [], 2, 4⟩] := by
  have hlength : s.index.index.length = 2 := KeyIndex.length_of_shows points.index
  have hpositions : KeySearch.positions (s.index.index.loadKey fs) "b" 2 = .ok (some [0]) := by
    rw [KeySearch.positions, if_neg (by decide), points.tells 0 "b" rfl, ok_bind]
    simp only [Text.compare_self]
    rw [KeySearch.run, KeySearch.runStart, KeySearch.runEnd, if_pos (by decide),
      points.tells 1 "a" rfl]
    rfl
  have htuple : s.index.log.tupleAt fs 38 = .ok (some ⟨"b", Box.fullSpace, [], 2, 4⟩) := by
    rw [KeyIndex.logInOrder, ← List.append_nil (_ ++ _)] at hlog
    have h := Log.tupleAt_eq hlog ⟨by decide, by decide, by decide⟩ (by decide)
    rwa [List.length_append, Record.length_stored] at h
  have hoffset : s.index.index.offsetAt fs 0 = .ok (some 38) := points.offsetAt_eq rfl
  have hload : s.index.index.loadPositions fs "b" = .ok [38] := by
    rw [KeyIndex.loadPositions, hlength, hpositions, ok_bind]
    simp only [KeyIndex.offsetsAt, hoffset, ok_bind]
    rfl
  rw [loadTuples, hgate, hload]
  change loadAll fs s.index.log [38] = _
  rw [loadAll, htuple]
  rfl

/-- The key that comes first in such an index is found with its tuple, also when the other one has
been looked for before, without being found. -/
theorem found_under_key_unordered :
    ∃ fs opened s found left,
      open? fs ⟨"db"⟩ ⟨"g", "t", none, by decide, by decide⟩ 1 ⟨1, .buffered, true, 0.01, 2⟩ =
        .ok opened ∧
      Reached fs { opened with gate := Gate.absent } s ∧
      (tuplesOf fs "b").run.run s = (.ok found, left) ∧
      found = [⟨"b", Box.fullSpace, [], 2, 4⟩] ∧ (∀ t ∈ found, t.key = "b") ∧
      ∃ first count, List.Forall₂ (fun i t => opened.index.index.tupleAt fs i = .ok (some t))
        (List.range' first count) found := by
  obtain ⟨fs, opened, hopen, points, hlog⟩ := exists_open_unordered
  have reached : Reached fs { opened with gate := Gate.absent } _ := .key .opened "a"
  have hload := loadTuples_unordered (s := { opened with gate := Gate.absent }) points hlog rfl
  have hanswer := (answers_loadTuples "b" _
    ((unchanged_of_open hopen Gate.absent).of_reached reached)).1.trans hload
  have hrun := Prod.mk.eta.symm.trans (congrArg (·, _) hanswer)
  exact ⟨fs, opened, _, _, _, hopen, reached, hrun, rfl,
    found_under_key fs _ _ _ _ opened hopen Gate.absent _ reached "b" _ _ hrun⟩

end Segment

end SpatialSegment
