import SpatialSegment.Segment.Write
import SpatialSegment.Proofs.KeyIndex.Search
import SpatialSegment.Proofs.Lists

/-!
# The order of the log

The tuples of a log are those that were given, in the order of their keys, and tuples with one key
stand in the order in which they were given.
-/

namespace SpatialSegment

namespace Segment

/-- The second list has the tuples of the first one in the order of their keys, those with one key
as they were. -/
structure SortedByKey (tuples order : List Tuple) : Prop where
  perm : order.Perm tuples
  ordered : KeySearch.Ordered (order.map Tuple.key)
  stable : ∀ key, order.filter (fun t => t.key = key) = tuples.filter fun t => t.key = key

theorem sorted_pair_of_gt {a b : Tuple} (h : Text.compare a.key b.key = .gt) :
    sorted [a, b] = [b, a] := by
  simp [sorted, List.mergeSort, h]

theorem le_iff_notAfter {a b : Tuple} :
    (Text.compare a.key b.key != .gt) = true ↔ Text.NotAfter a.key b.key := bne_iff_ne

theorem sortedByKey_sorted (tuples : List Tuple) : SortedByKey tuples (sorted tuples) := by
  have trans : ∀ a b c : Tuple, (Text.compare a.key b.key != .gt) = true →
      (Text.compare b.key c.key != .gt) = true → (Text.compare a.key c.key != .gt) = true := by
    intro a b c hab hbc
    exact le_iff_notAfter.mpr ((le_iff_notAfter.mp hab).trans (le_iff_notAfter.mp hbc))
  have total : ∀ a b : Tuple, (Text.compare a.key b.key != .gt ||
      Text.compare b.key a.key != .gt) = true := by
    intro a b
    rw [Bool.or_eq_true, le_iff_notAfter, le_iff_notAfter]
    exact Text.NotAfter.total a.key b.key
  have perm : (sorted tuples).Perm tuples := List.mergeSort_perm tuples _
  refine ⟨perm, ?_, fun key => ?_⟩
  · have hpairwise := List.pairwise_mergeSort trans total tuples
    exact List.pairwise_map.mpr (hpairwise.imp fun hle => le_iff_notAfter.mp hle)
  · -- the tuples with the key do not decrease, so sorting keeps them in order
    have hequal : (tuples.filter fun t => t.key = key).Pairwise
        fun a b => (Text.compare a.key b.key != .gt) = true := by
      refine List.pairwise_of_forall_mem_list fun a ha b hb => ?_
      have hakey := of_decide_eq_true (List.mem_filter.mp ha).2
      have hbkey := of_decide_eq_true (List.mem_filter.mp hb).2
      rw [le_iff_notAfter, hakey, hbkey]
      exact Text.NotAfter.refl key
    have hsublist : (tuples.filter fun t => t.key = key).Sublist (sorted tuples) :=
      List.sublist_mergeSort trans total hequal List.filter_sublist
    have hfiltered := hsublist.filter fun t => decide (t.key = key)
    rw [List.filter_filter] at hfiltered
    simp only [Bool.and_self] at hfiltered
    exact (hfiltered.eq_of_length (perm.filter _).length_eq.symm).symm

/-- The tuples at the positions of a key are those with the key. -/
theorem filterMap_positionsOf (tuples : List Tuple) (key : String) :
    (KeySearch.positionsOf (tuples.map Tuple.key) key).filterMap (fun i => tuples[i]?) =
      tuples.filter fun t => t.key = key := by
  have hall := filterMap_getElem?_range tuples
  conv_rhs => rw [← hall]
  rw [KeySearch.positionsOf, List.length_map, List.filterMap_filter, List.filter_filterMap]
  refine List.filterMap_congr fun i _ => ?_
  rw [List.getElem?_map]
  cases tuples[i]? with
  | none => simp
  | some t => simp [Option.filter]

end Segment

end SpatialSegment
