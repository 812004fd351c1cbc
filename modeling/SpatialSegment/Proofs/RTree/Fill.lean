import SpatialSegment.Proofs.Checked.Split

/-!
# How full the groups of a split are

While boxes are dealt out, each group can still reach the minimum with the boxes that are left, and
not both can need all of them: together with the groups there are at least two minima of boxes. So
no group is short in the end, and as neither is empty, none takes all. Nothing is used of volumes
but that their ranks compare.
-/

namespace SpatialSegment

namespace RTree

/-- Each group can have the minimum when `left` boxes have no group yet, and both can. -/
structure Fillable (minFill left : Nat) (first second : Group) : Prop where
  of_first : minFill ≤ first.members.length + left
  of_second : minFill ≤ second.members.length + left
  of_both : 2 * minFill ≤ first.members.length + second.members.length + left

section

variable {minFill left : Nat} {first second : Group} {box : Box}

theorem toFirst_of_short (h : first.members.length + left ≤ minFill) :
    toFirst minFill left first second box = true :=
  if_pos h

theorem toFirst_of_second_short (hfirst : ¬ first.members.length + left ≤ minFill)
    (h : second.members.length + left ≤ minFill) :
    toFirst minFill left first second box = false := by
  rw [toFirst, if_neg hfirst, if_pos h]

theorem length_add (g : Group) (position : Nat) (box : Box) :
    (g.add position box).members.length = g.members.length + 1 := by
  rw [Group.add, List.length_append, List.length_singleton]

/-- The second group was not short, or the box would not have gone to the first. -/
theorem Fillable.add_first (fillable : Fillable minFill (left + 1) first second)
    (h : toFirst minFill (left + 1) first second box = true) (position : Nat) :
    Fillable minFill left (first.add position box) second := by
  obtain ⟨hfirst, hsecond, hboth⟩ := fillable
  have hlength := length_add first position box
  have hnot : ¬ second.members.length + (left + 1) ≤ minFill := by
    intro hshort
    by_cases hfirstShort : first.members.length + (left + 1) ≤ minFill
    · omega
    · rw [toFirst_of_second_short hfirstShort hshort] at h
      cases h
  constructor <;> omega

theorem Fillable.add_second (fillable : Fillable minFill (left + 1) first second)
    (h : toFirst minFill (left + 1) first second box ≠ true) (position : Nat) :
    Fillable minFill left first (second.add position box) := by
  obtain ⟨hfirst, hsecond, hboth⟩ := fillable
  have hlength := length_add second position box
  have hnot : ¬ first.members.length + (left + 1) ≤ minFill :=
    fun hshort => h (toFirst_of_short hshort)
  constructor <;> omega

end

/-- When all boxes have been dealt out, both groups have the minimum. -/
theorem minFill_le_distribute {minFill : Nat} {rest : List (Box × Nat)} {first second : Group}
    (fillable : Fillable minFill rest.length first second) :
    minFill ≤ (distribute minFill rest first second).1.members.length ∧
      minFill ≤ (distribute minFill rest first second).2.members.length := by
  induction rest generalizing first second with
  | nil => exact ⟨fillable.of_first, fillable.of_second⟩
  | cons b rest ih =>
    obtain ⟨box, position⟩ := b
    rw [distribute]
    by_cases h : toFirst minFill (rest.length + 1) first second box = true
    · rw [if_pos h]
      exact ih (fillable.add_first h position)
    · rw [if_neg h]
      exact ih (fillable.add_second h position)

section

variable {boxes : List Box} {max : Nat}

theorem length_rest {i j : Nat} (hij : i < j) (hj : j < boxes.length) :
    (boxes.zipIdx.filter fun b => b.2 ≠ i ∧ b.2 ≠ j).length + 2 = boxes.length := by
  have hpositions := congrArg List.length
    (map_snd_filter_zipIdx boxes fun k => decide (k ≠ i ∧ k ≠ j))
  have hall := (range_perm_pair hij hj).length_eq
  simp only [List.length_map, List.length_cons, List.length_range] at hpositions hall
  omega

theorem minFill_le_quadraticSplit (two_le : 2 ≤ max) (overfull : boxes.length = max + 1) :
    max / 2 ≤ (quadraticSplit boxes max).1.length ∧
      max / 2 ≤ (quadraticSplit boxes max).2.length := by
  have hpair : 2 ≤ boxes.length := by omega
  obtain ⟨i, j, hseeds⟩ := exists_seeds hpair
  obtain ⟨hij, hj⟩ := seeds_lt hseeds
  have hrest := length_rest hij hj
  simp only [quadraticSplit, hseeds]
  apply minFill_le_distribute
  constructor
  · rw [List.length_singleton]
    omega
  · rw [List.length_singleton]
    omega
  · rw [List.length_singleton, List.length_singleton]
    omega

/-- One box more than a node may list is split into two groups that hold every position exactly
once, each with at least half as many members as the node may list, rounded down, and at most as
many. Boxes of one dimension are split without a crash. -/
theorem split_into_filled_groups (two_le : 2 ≤ max) (overfull : boxes.length = max + 1) :
    ∃ first second, quadraticSplit boxes max = (first, second) ∧
      (first ++ second).Perm (List.range (max + 1)) ∧
      (∀ group ∈ [first, second], max / 2 ≤ group.length ∧ group.length ≤ max) ∧
      ∀ d, (∀ b ∈ boxes, b.dimension = d) → boxes.length + 2 < Word.limit 8 →
        checkedQuadraticSplit boxes max = pure (first, second) := by
  have hpair : 2 ≤ boxes.length := by omega
  obtain ⟨hperm, hfirst, hsecond⟩ := quadraticSplit_perm hpair max
  obtain ⟨hfirstFill, hsecondFill⟩ := minFill_le_quadraticSplit two_le overfull
  rw [overfull] at hperm
  have htotal := hperm.length_eq
  rw [List.length_append, List.length_range] at htotal
  have hfirstPos := List.length_pos_iff.mpr hfirst
  have hsecondPos := List.length_pos_iff.mpr hsecond
  refine ⟨(quadraticSplit boxes max).1, (quadraticSplit boxes max).2, rfl, hperm, ?_,
    fun d dims few => checkedQuadraticSplit_eq dims few max⟩
  intro group hgroup
  rcases List.mem_cons.mp hgroup with rfl | hgroup
  · omega
  · rw [List.mem_singleton] at hgroup
    subst hgroup
    omega

/-- Three boxes without a greatest number: no volume is finite and no gain is a number. -/
theorem split_into_filled_groups_infinite :
    let infinite : Box := ⟨[⟨⟨0⟩, ⟨0x7ff0000000000000⟩, by decide⟩]⟩
    ∃ first second, quadraticSplit [infinite, infinite, infinite] 2 = (first, second) ∧
      (first ++ second).Perm [0, 1, 2] ∧ first.length + second.length = 3 ∧
      1 ≤ first.length ∧ 1 ≤ second.length ∧
      checkedQuadraticSplit [infinite, infinite, infinite] 2 = pure (first, second) := by
  intro infinite
  have two_le : 2 ≤ 2 := Nat.le_refl 2
  have overfull : [infinite, infinite, infinite].length = 2 + 1 := rfl
  have dims : ∀ b ∈ [infinite, infinite, infinite], b.dimension = 1 := by decide
  obtain ⟨first, second, hsplit, hperm, hfill, hmachine⟩ :=
    split_into_filled_groups two_le overfull
  refine ⟨first, second, hsplit, hperm, ?_, (hfill first (by simp)).1, (hfill second (by simp)).1,
    hmachine 1 dims (by decide)⟩
  rw [← List.length_append, hperm.length_eq]
  rfl

end

end RTree

end SpatialSegment
