import Mathlib.Data.List.Forall2
import Mathlib.Data.List.Perm.Basic
import SpatialSegment.Proofs.Segment.Loads
import SpatialSegment.Proofs.Segment.Opened

/-!
# What reads answer

Every read of a segment that serves tuples answers from these tuples, as that is what it loads, and
the segment serves them still: only counters and the cache change.
-/

namespace SpatialSegment

namespace Segment

variable {fs : FileSystem} {order : List Tuple}

/-- The offset is that of the record of the tuple. -/
def LeadsTo (order : List Tuple) (offset : Nat) (t : Tuple) : Prop :=
  ∃ i : Nat, order[i]? = some t ∧
    (recordOffsets FileFormat.bodyStart order)[i]? = some offset

theorem Serves.unchanged {s : Segment} (serves : Serves fs order s) : Unchanged fs s s :=
  ⟨rfl, rfl, rfl, rfl, serves.cache⟩

/-- Reads of a segment that serves tuples leave one that serves them. -/
theorem Serves.of_unchanged {opened s : Segment} (serves : Serves fs order opened)
    (unchanged : Unchanged fs opened s) : Serves fs order s := by
  refine ⟨?_, ?_, ?_, ?_, ?_⟩
  · rw [unchanged.index]
    exact serves.index
  · rw [unchanged.index]
    exact unchanged.cache
  · rw [unchanged.tree]
    exact serves.tree
  · rw [unchanged.gate]
    exact serves.gate
  · rw [unchanged.summary]
    exact serves.summary

/-- The records at offsets are loaded one after another. -/
theorem Serves.loadAll_eq {s : Segment} (serves : Serves fs order s) {offsets : List Nat}
    {tuples : List Tuple} (leads : List.Forall₂ (LeadsTo order) offsets tuples) :
    loadAll fs s.index.log offsets = .ok tuples := by
  induction leads with
  | nil => rfl
  | @cons offset t offsets tuples hlead _ ih =>
    obtain ⟨i, ht, ho⟩ := hlead
    have hrecord : s.index.log.tupleAt fs offset = .ok (some t) :=
      (serves.index.exists_record ht ho).1
    rw [loadAll, hrecord, ih]
    rfl

theorem forall₂_positions {positions : List Nat} (inside : ∀ i ∈ positions, i < order.length) :
    List.Forall₂ (LeadsTo order)
      (positions.filterMap fun i => (recordOffsets FileFormat.bodyStart order)[i]?)
      (positions.filterMap fun i => order[i]?) := by
  induction positions with
  | nil => exact List.Forall₂.nil
  | cons i positions ih =>
    have hi := inside i List.mem_cons_self
    obtain ⟨o, ho⟩ := KeyIndex.Holds.exists_offset hi
    have ht : order[i]? = some order[i] := List.getElem?_eq_getElem hi
    rw [List.filterMap_cons_some ho, List.filterMap_cons_some ht]
    exact List.Forall₂.cons ⟨i, ht, ho⟩ (ih fun j hj => inside j (List.mem_cons_of_mem _ hj))

/-- All tuples with a key are found. -/
theorem Serves.tuplesOf_eq {s : Segment} (serves : Serves fs order s)
    (ordered : KeySearch.Ordered (order.map Tuple.key)) (key : String) :
    ((tuplesOf fs key).run.run s).1 = .ok (order.filter fun t => t.key = key) := by
  refine (answers_loadTuples key s serves.unchanged).1.trans ?_
  obtain ⟨passes, hpasses, hstopped⟩ := serves.gate key
  rw [loadTuples, hpasses]
  cases passes with
  | false =>
    have hnone : (order.filter fun t => t.key = key) = [] := by
      refine List.filter_eq_nil_iff.mpr fun t ht hkey => ?_
      exact hstopped rfl t ht (of_decide_eq_true hkey)
    rw [hnone]
    rfl
  | true =>
    have inside : ∀ i ∈ KeySearch.positionsOf (order.map Tuple.key) key, i < order.length := by
      intro i hi
      have := (List.getElem?_eq_some_iff.mp (KeySearch.mem_positionsOf.mp hi)).1
      rwa [List.length_map] at this
    have hload := serves.loadAll_eq (forall₂_positions inside)
    rw [filterMap_positionsOf] at hload
    rw [serves.index.loadPositions_eq ordered]
    exact hload

/-- Every place in the order gives its tuple, and there is nothing behind the last one. -/
theorem Serves.tupleAt_eq {s : Segment} (serves : Serves fs order s) (ordinal : Nat) :
    ((tupleAt fs ordinal).run.run s).1 = .ok order[ordinal]? := by
  refine (answers_loadAt ordinal s serves.unchanged).1.trans ?_
  rw [loadAt, serves.index.length_eq]
  by_cases hbehind : order.length ≤ ordinal
  · rw [if_pos hbehind, List.getElem?_eq_none hbehind]
    rfl
  · obtain ⟨t, ht⟩ : ∃ t, order[ordinal]? = some t := ⟨_, List.getElem?_eq_getElem (by omega)⟩
    rw [if_neg hbehind, serves.index.tupleAt_eq ht, ht]
    rfl

/-- Iteration gives all tuples in order. -/
theorem Serves.items_eq {s : Segment} (serves : Serves fs order s) :
    s.items fs = order.map .ok :=
  serves.index.drain_cursor

/-! ## Regions -/

theorem spatialEntries_filter (region : Box) (offsets : List Nat) :
    (spatialEntries order offsets).filter (fun e => e.box.intersects region) =
      ((order.zip offsets).filter fun row =>
        !row.1.box.isFullSpace && row.1.box.intersects region).map
          fun row => ⟨row.1.box, row.2⟩ := by
  rw [spatialEntries]
  induction order.zip offsets with
  | nil => rfl
  | cons row rows ih =>
    obtain ⟨t, offset⟩ := row
    cases hfull : t.box.isFullSpace with
    | true => simp [hfull, ih]
    | false =>
      cases htouch : t.box.intersects region with
      | true => simp [hfull, htouch, ih]
      | false => simp [hfull, htouch, ih]

theorem map_fst_filter_zip (condition : Tuple → Bool) {offsets : List Nat}
    (hlength : offsets.length = order.length) :
    ((order.zip offsets).filter fun row => condition row.1).map Prod.fst =
      order.filter condition := by
  have hfst : (order.zip offsets).map Prod.fst = order := List.map_fst_zip (by omega)
  conv_rhs => rw [← hfst]
  rw [List.filter_map]
  rfl

/-- The tuples of a region are those whose boxes have a place in the index and touch it. -/
theorem Serves.exists_tuplesIn {s : Segment} (serves : Serves fs order s) (region : Box) :
    ∃ found, ((tuplesIn fs region).run.run s).1 = .ok found ∧
      found.Perm (order.filter fun t => !t.box.isFullSpace && t.box.intersects region) := by
  have hquery := serves.tree region
  rw [spatialEntries_filter] at hquery
  have hleads : List.Forall₂ (fun (e : Entry) t => LeadsTo order e.offset t)
      (((order.zip (recordOffsets FileFormat.bodyStart order)).filter fun row =>
        !row.1.box.isFullSpace && row.1.box.intersects region).map
          fun row => ⟨row.1.box, row.2⟩)
      (((order.zip (recordOffsets FileFormat.bodyStart order)).filter fun row =>
        !row.1.box.isFullSpace && row.1.box.intersects region).map Prod.fst) := by
    rw [List.forall₂_map_left_iff, List.forall₂_map_right_iff, List.forall₂_same]
    intro row hrow
    obtain ⟨i, hi⟩ := List.mem_iff_getElem?.mp (List.mem_filter.mp hrow).1
    exact ⟨i, List.getElem?_zip_eq_some.mp hi⟩
  obtain ⟨found, hfound, hperm⟩ := List.perm_comp_forall₂ hquery hleads
  rw [map_fst_filter_zip (fun t => !t.box.isFullSpace && t.box.intersects region)
    (length_recordOffsets _ order)] at hperm
  have hload := serves.loadAll_eq (List.forall₂_map_left_iff.mpr hfound)
  exact ⟨found, (answers_loadRegion region s serves.unchanged).1.trans hload, hperm⟩

end Segment

end SpatialSegment
