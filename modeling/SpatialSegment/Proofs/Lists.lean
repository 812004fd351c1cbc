import Mathlib.Data.List.Count
import Mathlib.Data.List.Perm.Basic
import Mathlib.Data.List.Range
import Mathlib.Tactic.Common

/-!
# Pieces and positions of lists

Where a piece stands in a concatenation, how long the concatenation is when all pieces have one
length, what is picked by positions, and how often something occurs when one more has come.
-/

namespace SpatialSegment

variable {α β : Type} {f : α → List β} {xs : List α}

theorem flatMap_at {k : Nat} {x : α} (h : xs[k]? = some x) :
    xs.flatMap f = (xs.take k).flatMap f ++ f x ++ (xs.drop (k + 1)).flatMap f := by
  obtain ⟨hlt, rfl⟩ := List.getElem?_eq_some_iff.mp h
  have hxs : xs = xs.take k ++ xs[k] :: xs.drop (k + 1) := by
    rw [← List.drop_eq_getElem_cons hlt, List.take_append_drop]
  conv_lhs => rw [hxs]
  rw [List.flatMap_append, List.flatMap_cons, List.append_assoc]

theorem length_flatMap_const {c : Nat} (h : ∀ x, (f x).length = c) :
    (xs.flatMap f).length = c * xs.length := by
  induction xs with
  | nil => rfl
  | cons x xs ih =>
    rw [List.flatMap_cons, List.length_append, ih, h, List.length_cons, Nat.mul_succ, Nat.add_comm]

theorem length_flatMap_le {c : Nat} (h : ∀ x ∈ xs, (f x).length ≤ c) :
    (xs.flatMap f).length ≤ c * xs.length := by
  induction xs with
  | nil => exact Nat.le_refl _
  | cons x xs ih =>
    have hhead := h x List.mem_cons_self
    have hrest := ih fun y hy => h y (List.mem_cons_of_mem _ hy)
    rw [List.flatMap_cons, List.length_append, List.length_cons, Nat.mul_succ]
    omega

theorem le_length_flatMap {c : Nat} (h : ∀ x ∈ xs, c ≤ (f x).length) :
    c * xs.length ≤ (xs.flatMap f).length := by
  induction xs with
  | nil => exact Nat.le_refl _
  | cons x xs ih =>
    have hhead := h x List.mem_cons_self
    have hrest := ih fun y hy => h y (List.mem_cons_of_mem _ hy)
    rw [List.flatMap_cons, List.length_append, List.length_cons, Nat.mul_succ]
    omega

/-- What gives nothing can be left out. -/
theorem flatMap_filter {p : α → Bool} (h : ∀ x ∈ xs, p x = false → f x = []) :
    (xs.filter p).flatMap f = xs.flatMap f := by
  induction xs with
  | nil => rfl
  | cons x xs ih =>
    have hrest := ih fun y hy => h y (List.mem_cons_of_mem _ hy)
    rw [List.flatMap_cons, ← hrest]
    cases hx : p x with
    | true => rw [List.filter_cons_of_pos hx, List.flatMap_cons]
    | false =>
      rw [List.filter_cons_of_neg (by simp [hx]), h x List.mem_cons_self hx, List.nil_append]

theorem filterMap_getElem?_range (xs : List α) :
    (List.range xs.length).filterMap (xs[·]?) = xs := by
  induction xs with
  | nil => rfl
  | cons x xs ih =>
    rw [List.length_cons, List.range_succ_eq_map, List.filterMap_cons, List.filterMap_map]
    simpa [Function.comp_def] using ih

/-- What a permutation of all positions picks is what there is. -/
theorem filterMap_getElem?_perm {order : List Nat}
    (h : order.Perm (List.range xs.length)) : (order.filterMap (xs[·]?)).Perm xs := by
  have hpick := h.filterMap (xs[·]?)
  rwa [filterMap_getElem?_range] at hpick

/-- What a permutation of all positions leads to, each position to what stands there. -/
theorem flatMap_perm {order : List Nat} (h : order.Perm (List.range xs.length)) {g : Nat → List β}
    (at_position : ∀ {i : Nat} {x : α}, xs[i]? = some x → g i = f x) :
    (order.flatMap g).Perm (xs.flatMap f) := by
  refine (h.flatMap_right g).trans (.of_eq ?_)
  have hmap : (List.range xs.length).map g = xs.map f := by
    apply List.ext_getElem (by simp)
    intro i hi hi'
    rw [List.length_map] at hi'
    rw [List.getElem_map, List.getElem_map, List.getElem_range]
    exact at_position (List.getElem?_eq_getElem hi')
  rw [List.flatMap_def, List.flatMap_def, hmap]

theorem modify_append_of_lt {i : Nat} {g : α → α} {ys : List α} (h : i < xs.length) :
    (xs ++ ys).modify i g = xs.modify i g ++ ys := by
  induction xs generalizing i with
  | nil => cases h
  | cons x xs ih =>
    cases i with
    | zero => rfl
    | succ i =>
      rw [List.cons_append, List.modify_succ_cons, List.modify_succ_cons, List.cons_append,
        ih (Nat.lt_of_succ_lt_succ h)]

theorem eq_of_getElem?_singleton {x y : α} {i : Nat} (h : [x][i]? = some y) : i = 0 ∧ y = x := by
  rw [List.getElem?_singleton] at h
  split at h
  · cases h
    exact ⟨‹_›, rfl⟩
  · cases h

section

variable [DecidableEq α] {x y : α}

/-- A part of a list without repetitions is all that the two have in common. -/
theorem filter_mem_eq {ys : List α} (h : ys.Sublist xs) (nodup : xs.Nodup) :
    xs.filter (· ∈ ys) = ys := by
  induction h with
  | slnil => rfl
  | @cons ys xs x hsub ih =>
    obtain ⟨hx, nodup⟩ := List.nodup_cons.mp nodup
    have hnot : x ∉ ys := fun hmem => hx (hsub.subset hmem)
    rw [List.filter_cons_of_neg (by simpa using hnot), ih nodup]
  | @cons_cons ys xs x hsub ih =>
    obtain ⟨hx, nodup⟩ := List.nodup_cons.mp nodup
    rw [List.filter_cons_of_pos (by simp)]
    congr 1
    conv_rhs => rw [← ih nodup]
    refine List.filter_congr fun y hy => ?_
    have hne : y ≠ x := fun heq => hx (heq ▸ hy)
    simp [hne]

theorem count_concat_self : (xs ++ [x]).count x = xs.count x + 1 := by
  rw [List.count_append, List.count_singleton_self]

theorem count_concat_of_ne (h : x ≠ y) : (xs ++ [x]).count y = xs.count y := by
  rw [List.count_append, List.count_singleton, beq_false_of_ne h]
  rfl

end

end SpatialSegment
