import Mathlib.Data.List.GetD
import SpatialSegment.Proofs.Box.Bounds
import SpatialSegment.Proofs.Checked.Steps
import SpatialSegment.Proofs.RTree.Partition

/-!
# Leaves are split without a crash

To join two boxes is an assertion: both must be of one dimension, unless one is the full space. The
boxes of a leaf are of one dimension and so are all that are made of them, the positions of the two
first members lie within the leaf, and no group has more members than the leaf. A walk over the
positions of a list is a walk over its items here.
-/

namespace SpatialSegment

open Machine

namespace Box

/-- The box around both. That there is one is asserted. -/
def checkedUnion (a b : Box) : Machine Box :=
  if a.isFullSpace || b.isFullSpace || a.dimension == b.dimension then return a.union b
  else throw .panic

def checkedUnionAll (boxes : List Box) : Machine Box :=
  boxes.foldlM checkedUnion fullSpace

def checkedEnlargement (a b : Box) : Machine Float :=
  if a.isFullSpace || b.isFullSpace || a.covers b then return 0.0
  else if a.dimension != b.dimension then return Float.ofBits 0x7ff0000000000000
  else do
    let around ← a.checkedUnion b
    return around.volume - a.volume

variable {a b : Box} {d : Nat}

theorem checkedUnion_eq (h : a.isFullSpace = true ∨ a.dimension = b.dimension) :
    a.checkedUnion b = pure (a.union b) := by
  refine if_pos ?_
  rcases h with hfull | hsame
  · simp [hfull]
  · simp [hsame]

theorem foldlM_checkedUnion {boxes : List Box} (dims : ∀ b ∈ boxes, b.dimension = d)
    (ha : a.isFullSpace = true ∨ a.dimension = d) :
    boxes.foldlM checkedUnion a = pure (boxes.foldl union a) := by
  induction boxes generalizing a with
  | nil => rfl
  | cons b boxes ih =>
    obtain ⟨hb, dims⟩ := List.forall_mem_cons.mp dims
    have hunion : (a.union b).dimension = d := by
      rcases ha with hfull | ha
      · rw [union, if_pos hfull, hb]
      · exact dimension_union ha hb
    rw [List.foldlM_cons, checkedUnion_eq (ha.imp_right (·.trans hb.symm)), pure_bind,
      List.foldl_cons]
    exact ih dims (Or.inr hunion)

/-- Boxes of one dimension have a box around them. -/
theorem checkedUnionAll_eq {boxes : List Box} (dims : ∀ b ∈ boxes, b.dimension = d) :
    checkedUnionAll boxes = pure (unionAll boxes) :=
  foldlM_checkedUnion dims (Or.inl rfl)

/-- Growth is told for all boxes: those of different dimensions are not joined. -/
theorem checkedEnlargement_eq (a b : Box) : a.checkedEnlargement b = pure (a.enlargement b) := by
  rw [checkedEnlargement, enlargement]
  by_cases hnone : (a.isFullSpace || b.isFullSpace || a.covers b) = true
  · rw [if_pos hnone, if_pos hnone]
  · rw [if_neg hnone, if_neg hnone]
    by_cases hsame : a.dimension = b.dimension
    · rw [if_neg (by simpa using hsame), checkedUnion_eq (Or.inr hsame),
        merge_eq_union (Or.inr hsame)]
      rfl
    · have hmixed : a.merge b = .error (.mixedDimensions a.dimension b.dimension) := by
        simp only [Bool.or_eq_true, not_or, Bool.not_eq_true] at hnone
        simp [merge, hnone.1.1, hnone.1.2, hsame]
      rw [if_pos (by simpa using hsame), hmixed]

end Box

namespace RTree

def checkedGain (a b : Box) : Machine Int := do
  let around ← a.checkedUnion b
  return areaRank (around.volume - a.volume - b.volume)

def checkedSeedPairs (position : Nat) : List Box → Machine (List ((Nat × Nat) × Int))
  | [] => return []
  | a :: rest => do
    let pairs ← (rest.zipIdx (position + 1)).mapM fun b => do
      return ((position, b.2), ← checkedGain a b.1)
    return pairs ++ (← checkedSeedPairs (position + 1) rest)

def checkedSeeds (boxes : List Box) : Machine (Option (Nat × Nat)) := do
  return (firstLeast (fun p q => p.2 < q.2) (← checkedSeedPairs 0 boxes)).map Prod.fst

def Group.checkedAdd (g : Group) (position : Nat) (box : Box) : Machine Group := do
  return ⟨g.members ++ [position], ← g.box.checkedUnion box⟩

def checkedToFirst (minFill left : Nat) (first second : Group) (box : Box) : Machine Bool := do
  if (← add first.members.length left) ≤ minFill then return true
  else if (← add second.members.length left) ≤ minFill then return false
  else
    let a := areaRank (← first.box.checkedEnlargement box)
    let b := areaRank (← second.box.checkedEnlargement box)
    if a < b then return true
    else if b < a then return false
    else return first.members.length < second.members.length

def checkedDistribute (minFill : Nat) : List (Box × Nat) → Group → Group → Machine (Group × Group)
  | [], first, second => return (first, second)
  | (box, position) :: rest, first, second => do
    if ← checkedToFirst minFill (rest.length + 1) first second box then
      checkedDistribute minFill rest (← first.checkedAdd position box) second
    else checkedDistribute minFill rest first (← second.checkedAdd position box)

def checkedQuadraticSplit (boxes : List Box) (max : Nat) : Machine (List Nat × List Nat) := do
  match ← checkedSeeds boxes with
  | none => return (List.range boxes.length, [])
  | some (i, j) =>
    let a ← item boxes i
    let b ← item boxes j
    let rest := boxes.zipIdx.filter fun b => b.2 ≠ i ∧ b.2 ≠ j
    let (first, second) ← checkedDistribute (max / 2) rest ⟨[i], a⟩ ⟨[j], b⟩
    return (first.members, second.members)

variable {d : Nat}

theorem checkedGain_eq {a b : Box} (h : a.dimension = b.dimension) :
    checkedGain a b = pure (gain a b) := by
  rw [checkedGain, Box.checkedUnion_eq (Or.inr h), pure_bind, gain]

theorem checkedSeedPairs_eq {boxes : List Box} (dims : ∀ b ∈ boxes, b.dimension = d)
    (position : Nat) : checkedSeedPairs position boxes = pure (seedPairs position boxes) := by
  induction boxes generalizing position with
  | nil => rfl
  | cons a rest ih =>
    obtain ⟨ha, dims⟩ := List.forall_mem_cons.mp dims
    have hpairs : ∀ b ∈ rest.zipIdx (position + 1), (do
        return ((position, b.2), ← checkedGain a b.1) : Machine ((Nat × Nat) × Int)) =
          pure ((position, b.2), gain a b.1) := by
      intro b hb
      have hbox := dims b.1 (List.fst_mem_of_mem_zipIdx hb)
      rw [checkedGain_eq (ha.trans hbox.symm), pure_bind]
    rw [checkedSeedPairs, mapM_eq hpairs, pure_bind, ih dims, pure_bind, seedPairs]

theorem checkedSeeds_eq {boxes : List Box} (dims : ∀ b ∈ boxes, b.dimension = d) :
    checkedSeeds boxes = pure (seeds boxes) := by
  rw [checkedSeeds, checkedSeedPairs_eq dims, pure_bind, seeds]

theorem checkedAdd_eq {g : Group} {box : Box} (h : g.box.dimension = box.dimension)
    (position : Nat) : g.checkedAdd position box = pure (g.add position box) := by
  rw [Group.checkedAdd, Box.checkedUnion_eq (Or.inr h), pure_bind, Group.add]

theorem checkedToFirst_eq {minFill left : Nat} {first second : Group}
    (few : first.members.length + left < Word.limit 8 ∧
      second.members.length + left < Word.limit 8) (box : Box) :
    checkedToFirst minFill left first second box =
      pure (toFirst minFill left first second box) := by
  rw [checkedToFirst, toFirst, add_eq few.1, pure_bind]
  by_cases hfirst : first.members.length + left ≤ minFill
  · rw [if_pos hfirst, if_pos hfirst]
  · rw [if_neg hfirst, if_neg hfirst, add_eq few.2, pure_bind]
    by_cases hsecond : second.members.length + left ≤ minFill
    · rw [if_pos hsecond, if_pos hsecond]
    · rw [if_neg hsecond, if_neg hsecond, Box.checkedEnlargement_eq, pure_bind,
        Box.checkedEnlargement_eq, pure_bind]
      dsimp only
      split
      · rfl
      · split <;> rfl

/-- The members of a group are at most all boxes that have been dealt out, and its box is of their
dimension. -/
theorem checkedDistribute_eq (minFill : Nat) {rest : List (Box × Nat)} {first second : Group}
    (dims : ∀ b ∈ rest, b.1.dimension = d) (hfirst : first.box.dimension = d)
    (hsecond : second.box.dimension = d)
    (few : first.members.length + second.members.length + rest.length < Word.limit 8) :
    checkedDistribute minFill rest first second = pure (distribute minFill rest first second) := by
  induction rest generalizing first second with
  | nil => rfl
  | cons b rest ih =>
    obtain ⟨box, position⟩ := b
    obtain ⟨hbox, dims⟩ := List.forall_mem_cons.mp dims
    rw [List.length_cons] at few
    rw [checkedDistribute, checkedToFirst_eq ⟨by omega, by omega⟩, pure_bind, distribute]
    by_cases hto : toFirst minFill (rest.length + 1) first second box = true
    · rw [if_pos hto, if_pos hto, checkedAdd_eq (hfirst.trans hbox.symm), pure_bind]
      refine ih dims (Box.dimension_union hfirst hbox) hsecond ?_
      rw [Group.add, List.length_append, List.length_singleton]
      omega
    · rw [if_neg hto, if_neg hto, checkedAdd_eq (hsecond.trans hbox.symm), pure_bind]
      refine ih dims hfirst (Box.dimension_union hsecond hbox) ?_
      rw [Group.add, List.length_append, List.length_singleton]
      omega

/-- Boxes of one dimension are split without a crash. -/
theorem checkedQuadraticSplit_eq {boxes : List Box} (dims : ∀ b ∈ boxes, b.dimension = d)
    (few : boxes.length + 2 < Word.limit 8) (max : Nat) :
    checkedQuadraticSplit boxes max = pure (quadraticSplit boxes max) := by
  rw [checkedQuadraticSplit, checkedSeeds_eq dims, pure_bind, quadraticSplit]
  cases hseeds : seeds boxes with
  | none => rfl
  | some pair =>
    obtain ⟨i, j⟩ := pair
    obtain ⟨hij, hj⟩ := seeds_lt hseeds
    have hi : i < boxes.length := Nat.lt_trans hij hj
    have hrest := List.length_filter_le (fun b : Box × Nat => b.2 ≠ i ∧ b.2 ≠ j) boxes.zipIdx
    rw [List.length_zipIdx] at hrest
    dsimp only
    rw [item_eq (List.getElem?_eq_getElem hi), pure_bind, item_eq (List.getElem?_eq_getElem hj),
      pure_bind, checkedDistribute_eq (max / 2)
        (fun b hb => dims b.1 (List.fst_mem_of_mem_zipIdx (List.mem_of_mem_filter hb)))
        (dims _ (List.getElem_mem hi)) (dims _ (List.getElem_mem hj)) (by
          simp only [List.length_singleton]
          omega), pure_bind, List.getD_eq_getElem _ _ hi, List.getD_eq_getElem _ _ hj]

end RTree

end SpatialSegment
