import Mathlib.Data.List.Forall2
import Mathlib.Data.List.Perm.Basic
import Mathlib.Order.Lattice
import Mathlib.Order.MinMax
import Mathlib.Tactic.Common
import SpatialSegment.Box

/-!
# Boxes as numbers

The bounds of a box are the places of its ends on the number line, one pair per dimension. The
predicates of boxes look at nothing else, and on bounds joining is a commutative and associative
operation with the full space as neutral element, whatever the dimensions. So the bounds of a
covering box depend neither on the order of the boxes nor on the bits of their ends.
-/

namespace SpatialSegment

def joinPair (p q : Int × Int) : Int × Int :=
  (min p.1 q.1, max p.2 q.2)

/-- The dimensions that both have, joined; no bounds at all add nothing. -/
def joinBounds (x y : List (Int × Int)) : List (Int × Int) :=
  if x = [] then y else if y = [] then x else List.zipWith joinPair x y

@[simp] theorem joinBounds_nil (x : List (Int × Int)) : joinBounds x [] = x := by
  cases x <;> simp [joinBounds]

@[simp] theorem nil_joinBounds (x : List (Int × Int)) : joinBounds [] x = x := by
  simp [joinBounds]

theorem joinBounds_cons (p q : Int × Int) (x y : List (Int × Int)) :
    joinBounds (p :: x) (q :: y) = List.zipWith joinPair (p :: x) (q :: y) := by
  simp [joinBounds]

theorem joinPair_comm (p q : Int × Int) : joinPair p q = joinPair q p := by
  simp [joinPair, min_comm, max_comm]

theorem joinPair_assoc (p q r : Int × Int) :
    joinPair (joinPair p q) r = joinPair p (joinPair q r) := by
  simp [joinPair, min_assoc, max_assoc]

theorem joinBounds_comm (x y : List (Int × Int)) : joinBounds x y = joinBounds y x := by
  cases x with
  | nil => simp
  | cons p x =>
    cases y with
    | nil => simp
    | cons q y =>
      rw [joinBounds_cons, joinBounds_cons]
      exact List.zipWith_comm_of_comm joinPair_comm

theorem zipWith_joinPair_assoc (x y z : List (Int × Int)) :
    List.zipWith joinPair (List.zipWith joinPair x y) z =
      List.zipWith joinPair x (List.zipWith joinPair y z) := by
  induction x generalizing y z with
  | nil => simp
  | cons p x ih =>
    cases y with
    | nil => simp
    | cons q y =>
      cases z with
      | nil => simp
      | cons r z => simp [joinPair_assoc, ih]

theorem joinBounds_assoc (x y z : List (Int × Int)) :
    joinBounds (joinBounds x y) z = joinBounds x (joinBounds y z) := by
  cases x with
  | nil => simp
  | cons p x =>
    cases y with
    | nil => simp
    | cons q y =>
      cases z with
      | nil => simp
      | cons r z =>
        have h := zipWith_joinPair_assoc (p :: x) (q :: y) (r :: z)
        simpa [joinBounds] using h

theorem length_joinBounds {x y : List (Int × Int)} {d : Nat} (hx : x.length = d)
    (hy : y.length = d) : (joinBounds x y).length = d := by
  unfold joinBounds
  split
  · exact hy
  · split
    · exact hx
    · simp [hx, hy]

/-- Every pair lies in the pair at its place. -/
def Inside (x y : List (Int × Int)) : Prop :=
  List.Forall₂ (fun p q => q.1 ≤ p.1 ∧ p.2 ≤ q.2) x y

theorem inside_refl (x : List (Int × Int)) : Inside x x :=
  List.forall₂_same.mpr fun _ _ => ⟨le_rfl, le_rfl⟩

theorem inside_zipWith {x y : List (Int × Int)} (h : x.length = y.length) :
    Inside x (List.zipWith joinPair x y) := by
  unfold Inside
  induction x generalizing y with
  | nil => simp
  | cons p x ih =>
    cases y with
    | nil => simp at h
    | cons q y =>
      refine .cons ⟨min_le_left _ _, le_max_left _ _⟩ (ih ?_)
      simpa using h

theorem inside_joinBounds {x y : List (Int × Int)} (h : y = [] ∨ x.length = y.length) :
    Inside x (joinBounds x y) := by
  unfold joinBounds
  split
  · rename_i hx
    subst hx
    obtain rfl | h := h
    · exact inside_refl []
    · rw [List.eq_nil_of_length_eq_zero (l := y) (by simpa using h.symm)]
      exact inside_refl []
  · split
    · exact inside_refl x
    · rename_i hy
      exact inside_zipWith (h.resolve_left hy)

namespace Box

def bounds (b : Box) : List (Int × Int) :=
  b.intervals.map fun i => (i.lo.key, i.hi.key)

@[simp] theorem length_bounds (b : Box) : b.bounds.length = b.dimension := by
  simp [bounds, dimension]

theorem isFullSpace_iff {b : Box} : b.isFullSpace = true ↔ b.dimension = 0 := by
  simp [isFullSpace, dimension]

theorem bounds_eq_nil_iff {b : Box} : b.bounds = [] ↔ b.dimension = 0 := by
  rw [← length_bounds, List.length_eq_zero_iff]

@[simp] theorem bounds_fullSpace : fullSpace.bounds = [] := rfl

theorem bounds_isFullSpace {b : Box} (h : b.isFullSpace = true) : b.bounds = [] :=
  bounds_eq_nil_iff.mpr (isFullSpace_iff.mp h)

theorem bounds_not_isFullSpace {b : Box} (h : b.isFullSpace = false) : b.bounds ≠ [] := by
  rw [Ne, bounds_eq_nil_iff, ← isFullSpace_iff, h]
  exact Bool.false_ne_true

theorem key_lesser (a b : Coord) : (Coord.lesser a b).key = min a.key b.key := by
  unfold Coord.lesser
  split <;> omega

theorem key_greater (a b : Coord) : (Coord.greater a b).key = max a.key b.key := by
  unfold Coord.greater
  split <;> omega

theorem bounds_union (a b : Box) : (a.union b).bounds = joinBounds a.bounds b.bounds := by
  cases ha : a.isFullSpace with
  | true => simp [union, ha, bounds_isFullSpace ha]
  | false =>
    cases hb : b.isFullSpace with
    | true => simp [union, ha, hb, bounds_isFullSpace hb]
    | false =>
      have hjoin : ∀ i j : Interval, ((Interval.join i j).lo.key, (Interval.join i j).hi.key) =
          joinPair (i.lo.key, i.hi.key) (j.lo.key, j.hi.key) := by
        intro i j
        simp [Interval.join, joinPair, key_lesser, key_greater]
      rw [joinBounds, if_neg (bounds_not_isFullSpace ha), if_neg (bounds_not_isFullSpace hb)]
      simp [union, ha, hb, bounds, List.map_zipWith, List.zipWith_map, hjoin]

theorem dimension_union {a b : Box} {d : Nat} (ha : a.dimension = d) (hb : b.dimension = d) :
    (a.union b).dimension = d := by
  rw [← length_bounds, bounds_union]
  exact length_joinBounds (by simpa using ha) (by simpa using hb)

theorem merge_eq_union {a b : Box} (h : a.isFullSpace = true ∨ a.dimension = b.dimension) :
    a.merge b = .ok (a.union b) := by
  obtain h | h := h <;> simp [merge, h]

theorem eq_union_of_merge {a b c : Box} (h : a.merge b = .ok c) : c = a.union b := by
  unfold merge at h
  split at h
  · cases h
  · exact (Except.ok.inj h).symm

theorem dimension_union_le {a b : Box} {n : Nat} (ha : a.dimension ≤ n) (hb : b.dimension ≤ n) :
    (a.union b).dimension ≤ n := by
  unfold union
  split
  · exact hb
  · split
    · exact ha
    · rw [dimension, List.length_zipWith]
      exact Nat.le_trans (Nat.min_le_left _ _) ha

theorem sameNumber_iff {a b : Coord} (ha : a.isNaN = false) (hb : b.isNaN = false) :
    a.sameNumber b = true ↔ a.key = b.key := by
  simp [Coord.sameNumber, ha, hb]

/-- Two boxes are the same as numbers exactly if they have the same bounds. -/
theorem sameNumbers_iff (a b : Box) : a.sameNumbers b = true ↔ a.bounds = b.bounds := by
  obtain ⟨is⟩ := a
  obtain ⟨js⟩ := b
  simp only [sameNumbers, dimension, bounds, Bool.and_eq_true, beq_iff_eq]
  induction is generalizing js with
  | nil => cases js <;> simp
  | cons i is ih =>
    cases js with
    | nil => simp
    | cons j js =>
      have hlo := sameNumber_iff i.lo_isNaN j.lo_isNaN
      have hhi := sameNumber_iff i.hi_isNaN j.hi_isNaN
      have hrest := ih js
      simp only [List.length_cons, Nat.add_right_cancel_iff, List.zip_cons_cons, List.all_cons,
        Bool.and_eq_true, Interval.sameNumbers, hlo, hhi, List.map_cons, List.cons.injEq,
        Prod.mk.injEq, ← hrest]
      tauto

theorem le_iff_key {a b : Coord} (ha : a.isNaN = false) (hb : b.isNaN = false) :
    a ≤ b ↔ a.key ≤ b.key := by
  simp [Coord.le_def, ha, hb]

/-- Boxes touch if one is the full space or their bounds touch in every dimension. -/
theorem intersects_iff (a b : Box) :
    a.intersects b = true ↔ a.bounds = [] ∨ b.bounds = [] ∨
      List.Forall₂ (fun p q => p.1 ≤ q.2 ∧ q.1 ≤ p.2) a.bounds b.bounds := by
  have full : ∀ c : Box, c.isFullSpace = true ↔ c.bounds = [] := fun c => by
    rw [bounds_eq_nil_iff, isFullSpace_iff]
  have touch : ∀ is js : List Interval,
      (is.length = js.length ∧ ((is.zip js).all fun p => p.1.touches p.2) = true) ↔
        List.Forall₂ (fun p q : Int × Int => p.1 ≤ q.2 ∧ q.1 ≤ p.2)
          (is.map fun i => (i.lo.key, i.hi.key)) (js.map fun i => (i.lo.key, i.hi.key)) := by
    intro is
    induction is with
    | nil => intro js; cases js <;> simp
    | cons i is ih =>
      intro js
      cases js with
      | nil => simp
      | cons j js =>
        have hlo := le_iff_key i.lo_isNaN j.hi_isNaN
        have hhi := le_iff_key j.lo_isNaN i.hi_isNaN
        simp only [List.length_cons, Nat.add_right_cancel_iff, List.zip_cons_cons, List.all_cons,
          Bool.and_eq_true, Interval.touches, decide_eq_true_eq, hlo, hhi, List.map_cons,
          List.forall₂_cons, ← ih js]
        tauto
  simp only [intersects, Bool.or_eq_true, Bool.and_eq_true, beq_iff_eq, full, or_assoc]
  rw [show (a.dimension = b.dimension) = (a.intervals.length = b.intervals.length) from rfl, touch]
  rfl

/-- What touches a box touches every box around it. -/
theorem intersects_of_inside {a b r : Box} (h : Inside a.bounds b.bounds)
    (ha : a.intersects r = true) : b.intersects r = true := by
  rw [intersects_iff] at ha ⊢
  obtain hnil | hnil | htouch := ha
  · left
    rw [hnil] at h
    exact List.forall₂_nil_left_iff.mp h
  · exact .inr (.inl hnil)
  · right; right
    generalize a.bounds = x at h htouch
    generalize b.bounds = y at h ⊢
    generalize r.bounds = z at htouch ⊢
    unfold Inside at h
    induction h generalizing z with
    | nil => exact htouch
    | cons hpq _ ih =>
      cases htouch with
      | cons hpr hrest =>
        exact .cons ⟨hpq.1.trans hpr.1, hpr.2.trans hpq.2⟩ (ih _ hrest)

/-! ## Boxes around lists -/

theorem bounds_foldl_union (bs : List Box) (a : Box) :
    (bs.foldl union a).bounds = (bs.map bounds).foldl joinBounds a.bounds := by
  induction bs generalizing a with
  | nil => rfl
  | cons b bs ih => simp [ih, bounds_union]

theorem bounds_unionAll (bs : List Box) :
    (unionAll bs).bounds = (bs.map bounds).foldl joinBounds [] :=
  bounds_foldl_union bs fullSpace

instance : RightCommutative joinBounds :=
  ⟨fun x y z => by rw [joinBounds_assoc, joinBounds_comm y z, joinBounds_assoc]⟩

theorem bounds_unionAll_perm {bs cs : List Box} (h : bs.Perm cs) :
    (unionAll bs).bounds = (unionAll cs).bounds := by
  rw [bounds_unionAll, bounds_unionAll]
  exact (h.map bounds).foldl_eq []

theorem foldl_joinBounds (x : List (Int × Int)) (xs : List (List (Int × Int))) :
    xs.foldl joinBounds x = joinBounds x (xs.foldl joinBounds []) := by
  induction xs generalizing x with
  | nil => simp
  | cons y xs ih =>
    rw [List.foldl_cons, ih, List.foldl_cons, nil_joinBounds, ih y, joinBounds_assoc]

theorem bounds_unionAll_cons (b : Box) (bs : List Box) :
    (unionAll (b :: bs)).bounds = joinBounds b.bounds (unionAll bs).bounds := by
  rw [bounds_unionAll, bounds_unionAll, List.map_cons, List.foldl_cons, nil_joinBounds,
    foldl_joinBounds]

theorem bounds_unionAll_append (bs cs : List Box) :
    (unionAll (bs ++ cs)).bounds = joinBounds (unionAll bs).bounds (unionAll cs).bounds := by
  rw [bounds_unionAll, bounds_unionAll, bounds_unionAll, List.map_append, List.foldl_append,
    foldl_joinBounds]

theorem unionAll_congr {bs cs : List Box} (h : bs.map bounds = cs.map bounds) :
    (unionAll bs).bounds = (unionAll cs).bounds := by
  rw [bounds_unionAll, bounds_unionAll, h]

section OneDimension

variable {bs : List Box} {d : Nat} (dims : ∀ b ∈ bs, b.dimension = d)

include dims

theorem dimension_unionAll (nonempty : bs ≠ []) : (unionAll bs).dimension = d := by
  rw [← length_bounds]
  induction bs with
  | nil => exact absurd rfl nonempty
  | cons b bs ih =>
    have hb : b.bounds.length = d := by simpa using dims b List.mem_cons_self
    rw [bounds_unionAll_cons]
    by_cases h : bs = []
    · subst h
      simpa [unionAll] using hb
    · exact length_joinBounds hb (ih (fun c hc => dims c (List.mem_cons_of_mem _ hc)) h)

theorem inside_unionAll {b : Box} (h : b ∈ bs) : Inside b.bounds (unionAll bs).bounds := by
  have hperm := List.perm_cons_erase h
  rw [bounds_unionAll_perm hperm, bounds_unionAll_cons]
  generalize bs.erase b = cs at hperm ⊢
  apply inside_joinBounds
  by_cases hcs : cs = []
  · subst hcs
    exact .inl rfl
  · right
    have hdims : ∀ c ∈ cs, c.dimension = d := fun c hc =>
      dims c (hperm.symm.subset (List.mem_cons_of_mem _ hc))
    rw [length_bounds, length_bounds, dims b h, dimension_unionAll hdims hcs]

theorem foldlM_merge {a : Box} (ha : a.isFullSpace = true ∨ a.dimension = d) :
    bs.foldlM merge a = .ok (bs.foldl union a) := by
  induction bs generalizing a with
  | nil => rfl
  | cons b bs ih =>
    have hb : b.dimension = d := dims b List.mem_cons_self
    have hmerge : a.merge b = .ok (a.union b) := merge_eq_union (ha.imp_right (·.trans hb.symm))
    have hunion : (a.union b).isFullSpace = true ∨ (a.union b).dimension = d := by
      obtain h | h := ha
      · simp [union, h, hb]
      · exact .inr (dimension_union h hb)
    rw [List.foldlM_cons, hmerge, List.foldl_cons]
    exact ih (fun c hc => dims c (List.mem_cons_of_mem _ hc)) hunion

/-- Boxes of one dimension have a covering box, and it is what joining them gives. -/
theorem covering_eq_unionAll : covering bs = .ok (unionAll bs) :=
  foldlM_merge dims (.inl rfl)

end OneDimension

end Box

end SpatialSegment
