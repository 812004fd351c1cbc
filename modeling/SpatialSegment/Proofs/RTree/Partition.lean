import Mathlib.Data.List.Perm.Basic
import Mathlib.Data.List.Range
import Mathlib.Tactic.Common
import SpatialSegment.RTree.Choice
import SpatialSegment.RTree.Split
import SpatialSegment.Proofs.Lists

/-!
# Splitting divides the positions

Whatever volumes are, a split of two boxes or more gives two groups that are not empty and hold
every position exactly once.
-/

namespace SpatialSegment

theorem firstLeast_mem {α : Type} {before : α → α → Bool} {xs : List α} {a : α}
    (h : firstLeast before xs = some a) : a ∈ xs := by
  cases xs with
  | nil => simp [firstLeast] at h
  | cons x xs =>
    simp only [firstLeast, Option.some.injEq] at h
    subst h
    have hfold : ∀ (ys : List α) (y : α),
        ys.foldl (fun best x => if before x best then x else best) y ∈ y :: ys := by
      intro ys
      induction ys with
      | nil => simp
      | cons z ys ih =>
        intro y
        rw [List.foldl_cons]
        split
        · exact List.mem_cons_of_mem _ (ih z)
        · have := ih y
          rw [List.mem_cons] at this ⊢
          exact this.imp_right (List.mem_cons_of_mem _)
    exact hfold xs x

theorem firstLeast_isSome {α : Type} (before : α → α → Bool) {xs : List α} (h : xs ≠ []) :
    ∃ a, firstLeast before xs = some a := by
  cases xs with
  | nil => exact absurd rfl h
  | cons x xs => exact ⟨_, rfl⟩

namespace RTree

theorem seedPairs_positions {boxes : List Box} {start : Nat} {pair : (Nat × Nat) × Int}
    (h : pair ∈ seedPairs start boxes) :
    start ≤ pair.1.1 ∧ pair.1.1 < pair.1.2 ∧ pair.1.2 < start + boxes.length := by
  induction boxes generalizing start with
  | nil => simp [seedPairs] at h
  | cons a rest ih =>
    rw [seedPairs, List.mem_append] at h
    obtain h | h := h
    · obtain ⟨b, hb, rfl⟩ := List.mem_map.mp h
      have hlow := List.le_snd_of_mem_zipIdx hb
      have hhigh := List.snd_lt_add_of_mem_zipIdx hb
      simp only [List.length_cons]
      omega
    · have := ih h
      simp only [List.length_cons]
      omega

theorem seeds_lt {boxes : List Box} {i j : Nat} (h : seeds boxes = some (i, j)) :
    i < j ∧ j < boxes.length := by
  simp only [seeds, Option.map_eq_some_iff] at h
  obtain ⟨pair, hpair, hij⟩ := h
  have := seedPairs_positions (firstLeast_mem hpair)
  simp only [hij] at this
  omega

theorem exists_seeds {boxes : List Box} (h : 2 ≤ boxes.length) :
    ∃ i j, seeds boxes = some (i, j) := by
  have nonempty : seedPairs 0 boxes ≠ [] := by
    match boxes, h with
    | a :: b :: rest, _ => simp [seedPairs]
  obtain ⟨pair, hpair⟩ := firstLeast_isSome (fun p q => p.2 < q.2) nonempty
  exact ⟨pair.1.1, pair.1.2, by simp [seeds, hpair]⟩

/-- No position is lost and none is taken twice, and those that are in a group stay in it. -/
theorem distribute_perm (minFill : Nat) (rest : List (Box × Nat)) (first second : Group) :
    ((distribute minFill rest first second).1.members ++
      (distribute minFill rest first second).2.members).Perm
      (first.members ++ second.members ++ rest.map Prod.snd) := by
  induction rest generalizing first second with
  | nil => simp [distribute]
  | cons b rest ih =>
    obtain ⟨box, position⟩ := b
    rw [distribute]
    split
    · refine (ih _ _).trans ?_
      simp only [Group.add, List.map_cons, List.append_assoc]
      refine .append_left _ ?_
      simpa using (List.perm_middle (a := position)).symm
    · refine (ih _ _).trans ?_
      simp [Group.add]

theorem distribute_ne_nil (minFill : Nat) (rest : List (Box × Nat)) {first second : Group}
    (hfirst : first.members ≠ []) (hsecond : second.members ≠ []) :
    (distribute minFill rest first second).1.members ≠ [] ∧
      (distribute minFill rest first second).2.members ≠ [] := by
  induction rest generalizing first second with
  | nil => exact ⟨hfirst, hsecond⟩
  | cons b rest ih =>
    obtain ⟨box, position⟩ := b
    rw [distribute]
    split
    · exact ih (by simp [Group.add]) hsecond
    · exact ih hfirst (by simp [Group.add])

theorem range_perm_pair {n i j : Nat} (hij : i < j) (hj : j < n) :
    (i :: j :: (List.range n).filter fun k => decide (k ≠ i ∧ k ≠ j)).Perm (List.range n) := by
  refine (List.perm_ext_iff_of_nodup ?_ List.nodup_range).mpr fun k => ?_
  · refine List.nodup_cons.mpr ⟨?_, List.nodup_cons.mpr ⟨?_, List.nodup_range.filter _⟩⟩
    · simp
      omega
    · simp
  · simp only [List.mem_cons, List.mem_filter, List.mem_range, decide_eq_true_eq]
    omega

theorem map_snd_filter_zipIdx (boxes : List Box) (p : Nat → Bool) :
    (boxes.zipIdx.filter fun b => p b.2).map Prod.snd = (List.range boxes.length).filter p := by
  have h := List.filter_map (f := Prod.snd) (p := p) (l := boxes.zipIdx)
  rw [List.zipIdx_map_snd, ← List.range_eq_range'] at h
  exact h.symm

/-- The groups of a split hold every position once, and each holds one. -/
theorem quadraticSplit_perm {boxes : List Box} (h : 2 ≤ boxes.length) (max : Nat) :
    ((quadraticSplit boxes max).1 ++ (quadraticSplit boxes max).2).Perm
        (List.range boxes.length) ∧
      (quadraticSplit boxes max).1 ≠ [] ∧ (quadraticSplit boxes max).2 ≠ [] := by
  obtain ⟨i, j, hseeds⟩ := exists_seeds h
  obtain ⟨hij, hj⟩ := seeds_lt hseeds
  have hrest := map_snd_filter_zipIdx boxes fun k => decide (k ≠ i ∧ k ≠ j)
  simp only [quadraticSplit, hseeds]
  refine ⟨(distribute_perm ..).trans ?_, distribute_ne_nil _ _ (by simp) (by simp)⟩
  rw [hrest]
  exact range_perm_pair hij hj

end RTree

end SpatialSegment
