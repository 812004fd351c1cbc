import SpatialSegment.Proofs.Checked.Split
import SpatialSegment.Proofs.RTree.Least

/-!
# The first members of the two groups

The pairs of a list come in lexicographic order, and each of them comes. So the pair that is chosen
is the one that wastes least, and of several such pairs the first, in the order of areas, which has
a place for everything that the arithmetic of volumes may give.
-/

namespace SpatialSegment

namespace RTree

/-- The room that two boxes would waste together: the volume of their union without theirs. -/
def waste (a b : Box) : Float := (a.union b).volume - a.volume - b.volume

/-- What the boxes at two positions would waste. -/
def wasteAt (boxes : List Box) (i j : Nat) : Float :=
  waste (boxes.getD i Box.fullSpace) (boxes.getD j Box.fullSpace)

/-- No pair of positions wastes less than this one, and those before it waste more. -/
structure FirstLeastWaste (boxes : List Box) (i j : Nat) : Prop where
  lt : i < j
  inside : j < boxes.length
  least : ∀ k l, k < l → l < boxes.length →
    compareAreas (wasteAt boxes i j) (wasteAt boxes k l) ≠ .gt
  first : ∀ k l, k < l → l < boxes.length → k < i ∨ k = i ∧ l < j →
    compareAreas (wasteAt boxes i j) (wasteAt boxes k l) = .lt

variable {boxes : List Box} {start : Nat} {pair : (Nat × Nat) × Int}

/-- The pairs with the first box. -/
theorem mem_map_zipIdx_iff {a : Box} :
    pair ∈ ((boxes.zipIdx (start + 1)).map fun b => ((start, b.2), gain a b.1)) ↔
      ∃ l < boxes.length, pair =
        ((start, start + (l + 1)), areaRank (wasteAt (a :: boxes) 0 (l + 1))) := by
  have hgain : ∀ l (hl : l < boxes.length),
      areaRank (wasteAt (a :: boxes) 0 (l + 1)) = gain a boxes[l] := fun l hl => by
    simp only [wasteAt, List.getD_cons_zero, List.getD_cons_succ, List.getD_eq_getElem _ _ hl]
    rfl
  rw [List.mem_map]
  constructor
  · rintro ⟨b, hb, rfl⟩
    obtain ⟨hlow, hb⟩ := List.mem_zipIdx_iff_le_and_getElem?_sub.mp hb
    obtain ⟨hlt, hb⟩ := List.getElem?_eq_some_iff.mp hb
    refine ⟨b.2 - (start + 1), hlt, ?_⟩
    rw [hgain _ hlt, hb, show start + (b.2 - (start + 1) + 1) = b.2 by omega]
  · rintro ⟨l, hl, rfl⟩
    refine ⟨(boxes[l], start + (l + 1)), ?_, by rw [hgain l hl]⟩
    refine List.mem_zipIdx_iff_le_and_getElem?_sub.mpr ⟨by omega, ?_⟩
    dsimp only
    rw [show start + (l + 1) - (start + 1) = l by omega, List.getElem?_eq_getElem hl]

theorem mem_seedPairs_iff : pair ∈ seedPairs start boxes ↔ ∃ k l, k < l ∧ l < boxes.length ∧
    pair = ((start + k, start + l), areaRank (wasteAt boxes k l)) := by
  induction boxes generalizing start with
  | nil => simp [seedPairs]
  | cons a rest ih =>
    have hshift : ∀ k l, ((start + 1 + k, start + 1 + l), areaRank (wasteAt rest k l)) =
        ((start + (k + 1), start + (l + 1)), areaRank (wasteAt (a :: rest) (k + 1) (l + 1))) := by
      intro k l
      rw [Nat.add_right_comm start 1, Nat.add_right_comm start 1]
      rfl
    rw [seedPairs, List.mem_append, mem_map_zipIdx_iff, ih]
    constructor
    · rintro (⟨l, hl, rfl⟩ | ⟨k, l, hkl, hl, rfl⟩)
      · exact ⟨0, l + 1, Nat.succ_pos l, Nat.succ_lt_succ hl, rfl⟩
      · exact ⟨k + 1, l + 1, Nat.succ_lt_succ hkl, Nat.succ_lt_succ hl, hshift k l⟩
    · rintro ⟨k, l, hkl, hl, rfl⟩
      cases l with
      | zero => cases hkl
      | succ l =>
        have hl := Nat.lt_of_succ_lt_succ hl
        cases k with
        | zero => exact .inl ⟨l, hl, rfl⟩
        | succ k => exact .inr ⟨k, l, Nat.lt_of_succ_lt_succ hkl, hl, (hshift k l).symm⟩

theorem pairwise_seedPairs (start : Nat) (boxes : List Box) :
    (seedPairs start boxes).Pairwise fun p q =>
      p.1.1 < q.1.1 ∨ p.1.1 = q.1.1 ∧ p.1.2 < q.1.2 := by
  induction boxes generalizing start with
  | nil => exact .nil
  | cons a rest ih =>
    have hrange : ((rest.zipIdx (start + 1)).map Prod.snd).Pairwise (· < ·) := by
      rw [List.zipIdx_map_snd]
      exact List.pairwise_lt_range'
    rw [seedPairs, List.pairwise_append, List.pairwise_map]
    refine ⟨(List.pairwise_map.mp hrange).imp fun hlt => .inr ⟨rfl, hlt⟩, ih (start + 1), ?_⟩
    intro p hp q hq
    obtain ⟨l, -, rfl⟩ := mem_map_zipIdx_iff.mp hp
    obtain ⟨k, l', -, -, rfl⟩ := mem_seedPairs_iff.mp hq
    exact .inl (by dsimp only; omega)

theorem firstLeastWaste_of_seeds {i j : Nat} (h : seeds boxes = some (i, j)) :
    FirstLeastWaste boxes i j := by
  obtain ⟨hij, hj⟩ := seeds_lt h
  obtain ⟨best, hbest, hpair⟩ := Option.map_eq_some_iff.mp h
  obtain ⟨front, back, heq, hfront, hback⟩ := exists_of_firstLeast Prod.snd (by simp) hbest
  have hmem : best ∈ seedPairs 0 boxes := heq ▸ by simp
  obtain ⟨k, l, -, -, rfl⟩ := mem_seedPairs_iff.mp hmem
  simp only [Nat.zero_add, Prod.mk.injEq] at hpair hfront hback
  obtain ⟨rfl, rfl⟩ := hpair
  -- Where another pair stands in the list tells how it compares.
  have hsplit : ∀ k' l', k' < l' → l' < boxes.length →
      areaRank (wasteAt boxes k l) < areaRank (wasteAt boxes k' l') ∨
        areaRank (wasteAt boxes k l) ≤ areaRank (wasteAt boxes k' l') ∧
          ¬(k' < k ∨ k' = k ∧ l' < l) := by
    intro k' l' hkl hl
    have hpairs := pairwise_seedPairs 0 boxes
    have hother : ((0 + k', 0 + l'), areaRank (wasteAt boxes k' l')) ∈ seedPairs 0 boxes :=
      mem_seedPairs_iff.mpr ⟨k', l', hkl, hl, rfl⟩
    rw [heq] at hother hpairs
    rcases List.mem_append.mp hother with hother | hother
    · exact .inl (hfront _ hother)
    · right
      rcases List.mem_cons.mp hother with hsame | hother
      · simp only [Nat.zero_add, Prod.mk.injEq] at hsame
        rw [hsame.2]
        omega
      · have hafter := List.rel_of_pairwise_cons (List.pairwise_append.mp hpairs).2.1 hother
        simp only [Nat.zero_add] at hafter
        exact ⟨hback _ hother, by omega⟩
  refine ⟨hij, hj, fun k' l' hkl hl => ?_, fun k' l' hkl hl hbefore => ?_⟩
  · rw [compareAreas_eq, compare_le_iff_le]
    rcases hsplit k' l' hkl hl with hlt | ⟨hle, -⟩
    · exact hlt.le
    · exact hle
  · rw [compareAreas_eq, compare_lt_iff_lt]
    exact (hsplit k' l' hkl hl).resolve_right fun hnot => hnot.2 hbefore

theorem seeds_eq_none_of_lt (h : boxes.length < 2) : seeds boxes = none := by
  cases hseeds : seeds boxes with
  | none => rfl
  | some pair =>
    have hlt := seeds_lt (i := pair.1) (j := pair.2) hseeds
    omega

/-- Of two boxes or more the first pair that wastes least is chosen, and no pair of fewer boxes.
Boxes of one dimension are compared without a crash. -/
theorem seeds_waste_least (boxes : List Box) :
    (boxes.length < 2 → seeds boxes = none) ∧
      (2 ≤ boxes.length → ∃ i j, seeds boxes = some (i, j) ∧ FirstLeastWaste boxes i j) ∧
      ∀ d, (∀ b ∈ boxes, b.dimension = d) → checkedSeeds boxes = pure (seeds boxes) := by
  refine ⟨seeds_eq_none_of_lt, fun two_le => ?_, fun d dims => checkedSeeds_eq dims⟩
  obtain ⟨i, j, hseeds⟩ := exists_seeds two_le
  exact ⟨i, j, hseeds, firstLeastWaste_of_seeds hseeds⟩

/-- Two unbounded boxes waste nothing that is a number. -/
theorem seeds_waste_least_unbounded :
    let interval (lo hi : UInt64) (h : (⟨lo⟩ : Coord) ≤ ⟨hi⟩) : Box := ⟨[⟨⟨lo⟩, ⟨hi⟩, h⟩]⟩
    let boxes := [interval 0 0x3ff0000000000000 (by decide),
      interval 0 0x7ff0000000000000 (by decide),
      interval 0x8000000000000000 0x7ff0000000000000 (by decide)]
    (∃ i j, seeds boxes = some (i, j) ∧ FirstLeastWaste boxes i j) ∧
      checkedSeeds boxes = pure (seeds boxes) := by
  dsimp only
  obtain ⟨-, hseeds, hchecked⟩ := seeds_waste_least [_, _, _]
  exact ⟨hseeds (by simp), hchecked 1 (by simp [Box.dimension])⟩

example :
    let interval (lo hi : UInt64) (h : (⟨lo⟩ : Coord) ≤ ⟨hi⟩) : Box := ⟨[⟨⟨lo⟩, ⟨hi⟩, h⟩]⟩
    seeds [interval 0 0x3ff0000000000000 (by decide),
      interval 0x4024000000000000 0x4026000000000000 (by decide),
      interval 0x3ff0000000000000 0x4000000000000000 (by decide)] = some (0, 2) := by
  decide +kernel

end RTree

end SpatialSegment
