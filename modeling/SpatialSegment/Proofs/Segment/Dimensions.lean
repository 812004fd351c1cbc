import SpatialSegment.Segment.Write
import SpatialSegment.Proofs.Box.Covering
import SpatialSegment.Proofs.RTree.History
import SpatialSegment.Proofs.Summary

/-!
# Tuples of one dimension

The dimensions of boxes are looked at twice when tuples are written: the summary joins all boxes,
and the spatial index takes those that are not the full space one after another. Both take the
tuples exactly if their boxes have one dimension.
-/

namespace SpatialSegment

namespace Summary

theorem map_box_foldlM_add (d : Draft) (tuples : List Tuple) :
    (tuples.foldlM Draft.add d).map Draft.box = (tuples.map Tuple.box).foldlM Box.merge d.box := by
  induction tuples generalizing d with
  | nil => rfl
  | cons t tuples ih =>
    rw [List.foldlM_cons, List.map_cons, List.foldlM_cons, Draft.add]
    cases hmerge : d.box.merge t.box with
    | error cause => rfl
    | ok box => exact ih _

end Summary

namespace Segment

/-- All boxes that are not the full space have one dimension. -/
def SharedDimension (tuples : List Tuple) : Prop :=
  ∃ d, ∀ t ∈ tuples, t.box.Suits d

variable {tuples order : List Tuple} {offsets : List Nat}

theorem SharedDimension.perm (h : order.Perm tuples) :
    SharedDimension order ↔ SharedDimension tuples := by
  constructor
  · rintro ⟨d, hd⟩
    exact ⟨d, fun t ht => hd t (h.symm.subset ht)⟩
  · rintro ⟨d, hd⟩
    exact ⟨d, fun t ht => hd t (h.subset ht)⟩

/-- There is a summary of the tuples exactly if their boxes have one dimension. -/
theorem exists_summary_iff :
    (∃ summary, Summary.ofTuples tuples = .ok summary) ↔ SharedDimension tuples := by
  have hmap := Summary.map_box_foldlM_add Summary.Draft.empty tuples
  have hjoin : (∃ draft, tuples.foldlM Summary.Draft.add Summary.Draft.empty = .ok draft) ↔
      ∃ c, (tuples.map Tuple.box).foldlM Box.merge Summary.Draft.empty.box = .ok c := by
    rw [← hmap]
    cases tuples.foldlM Summary.Draft.add Summary.Draft.empty <;> simp [Except.map]
  have hfinish : (∃ summary, Summary.ofTuples tuples = .ok summary) ↔
      ∃ draft, tuples.foldlM Summary.Draft.add Summary.Draft.empty = .ok draft := by
    rw [Summary.ofTuples]
    cases tuples.foldlM Summary.Draft.add Summary.Draft.empty <;> simp [Except.map]
  rw [hfinish, hjoin, Box.exists_foldlM_merge_iff]
  simp only [List.forall_mem_map]
  exact exists_congr fun d => and_iff_right (Box.suits_of_isFullSpace rfl d)

/-- The boxes in the spatial index are those that are not the full space. -/
theorem map_box_spatialEntries (h : tuples.length ≤ offsets.length) :
    (spatialEntries tuples offsets).map Entry.box =
      (tuples.map Tuple.box).filter fun b => !b.isFullSpace := by
  induction tuples generalizing offsets with
  | nil => rfl
  | cons t tuples ih =>
    cases offsets with
    | nil => cases h
    | cons offset offsets =>
      have hrest := ih (Nat.le_of_succ_le_succ h)
      rw [spatialEntries] at hrest ⊢
      cases hfull : t.box.isFullSpace <;> simp [hfull, hrest]

end Segment

namespace RTree

variable {maxNodeSize : Nat} {two_le : 2 ≤ maxNodeSize} {entries : List Entry}

/-- An empty index takes all entries exactly if their boxes have one dimension. -/
theorem insertAll_empty_iff (proper : ∀ e ∈ entries, e.box.isFullSpace = false) :
    ((empty maxNodeSize two_le).insertAll entries).2 = true ↔
      ∃ d, ∀ e ∈ entries, e.box.dimension = d := by
  rw [insertAll_all_iff]
  cases entries with
  | nil => simp [taken]
  | cons e entries =>
    have sound := sound_empty maxNodeSize two_le
    have haccepts : (empty maxNodeSize two_le).accepts e = true := by
      rw [accepts, proper e List.mem_cons_self]
      rfl
    have hrest := (sound.insert e).1.taken_eq_filter (sound.dimension?_insert haccepts) entries
    rw [taken, if_pos haccepts, List.cons.injEq, eq_self, true_and, hrest, List.filter_eq_self]
    constructor
    · intro hall
      refine ⟨e.box.dimension, List.forall_mem_cons.mpr ⟨rfl, fun e' he' => ?_⟩⟩
      exact beq_iff_eq.mp (hall e' he')
    · rintro ⟨d, hd⟩ e' he'
      obtain ⟨he, hentries⟩ := List.forall_mem_cons.mp hd
      exact beq_iff_eq.mpr ((hentries e' he').trans he.symm)

end RTree

namespace Segment

variable {tuples : List Tuple} {offsets : List Nat} {maxNodeSize : Nat}

/-- The spatial index takes all boxes exactly if they have one dimension, as the summary does. -/
theorem insertAll_iff (two_le : 2 ≤ maxNodeSize) (h : tuples.length ≤ offsets.length) :
    ((RTree.empty maxNodeSize two_le).insertAll (spatialEntries tuples offsets)).2 = true ↔
      SharedDimension tuples := by
  have hboxes := map_box_spatialEntries h
  have hall : ∀ P : Box → Prop, (∀ e ∈ spatialEntries tuples offsets, P e.box) ↔
      ∀ t ∈ tuples, t.box.isFullSpace = false → P t.box := by
    intro P
    rw [← List.forall_mem_map, hboxes]
    simp
  rw [RTree.insertAll_empty_iff ((hall (·.isFullSpace = false)).mpr fun t _ hfull =>
    hfull)]
  exact exists_congr fun d => hall fun b => b.dimension = d

end Segment

end SpatialSegment
