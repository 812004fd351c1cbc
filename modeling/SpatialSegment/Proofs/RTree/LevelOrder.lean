import SpatialSegment.Proofs.RTree.Visits
import SpatialSegment.RTree.Image

/-!
# Nodes level by level

Breadth-first order consists of the root and of the children of its own positions, in order. An
arena renumbered by it is *level-ordered*: the children of its nodes, one list behind the other, are
all positions but the root in their order.
-/

namespace SpatialSegment

namespace RTree

theorem Node.length_children_le (n : Node) : n.children.length ≤ n.size := by
  unfold Node.children Node.size
  split <;> simp

namespace Arena

section

variable {a : Arena} {max : Nat}
  (bounded : ∀ {i : Nat} {n : Node}, a[i]? = some n → n.size ≤ max)

@[simp] theorem breadthFirst_nil : a.breadthFirst max [] = some [] := by
  rw [breadthFirst]

include bounded

theorem breadthFirst_cons {i : Nat} {n : Node} (hi : a[i]? = some n) (queue : List Nat) :
    a.breadthFirst max (i :: queue) =
      (a.breadthFirst max (queue ++ n.children)).map (i :: ·) := by
  have htake : n.children.take max = n.children :=
    List.take_of_length_le (Nat.le_trans n.length_children_le (bounded hi))
  rw [breadthFirst]
  simp only [hi, htake]
  cases a.breadthFirst max (queue ++ n.children) <;> rfl

theorem breadthFirst_induction {P : List Nat → List Nat → Prop} (nil : P [] [])
    (cons : ∀ i n queue order, a[i]? = some n →
      P (queue ++ n.children) order → P (i :: queue) (i :: order))
    {queue order : List Nat} (h : a.breadthFirst max queue = some order) : P queue order := by
  induction order generalizing queue with
  | nil =>
    cases queue with
    | nil => exact nil
    | cons i queue =>
      cases hi : a[i]? with
      | none => simp [breadthFirst, hi] at h
      | some n => simp [breadthFirst_cons bounded hi] at h
  | cons j order ih =>
    cases queue with
    | nil => simp at h
    | cons i queue =>
      cases hi : a[i]? with
      | none => simp [breadthFirst, hi] at h
      | some n =>
        simp only [breadthFirst_cons bounded hi, Option.map_eq_some_iff, List.cons.injEq] at h
        obtain ⟨order', hrest, rfl, rfl⟩ := h
        exact cons i n queue order' hi (ih hrest)

/-- The order is the queue and the children of the order. -/
theorem breadthFirst_eq {queue order : List Nat} (h : a.breadthFirst max queue = some order) :
    order = queue ++ order.flatMap a.childrenAt := by
  refine breadthFirst_induction bounded (P := fun queue order =>
    order = queue ++ order.flatMap a.childrenAt) rfl ?_ h
  intro i n queue order hi ih
  rw [List.flatMap_cons, childrenAt_eq hi, List.cons_append, ← List.append_assoc, ← ih]

theorem lt_of_mem_breadthFirst {queue order : List Nat}
    (h : a.breadthFirst max queue = some order) : ∀ i ∈ order, i < a.length := by
  refine breadthFirst_induction bounded (P := fun _ order => ∀ i ∈ order, i < a.length)
    (by simp) ?_ h
  intro i n queue order hi ih j hj
  obtain rfl | hj := List.mem_cons.mp hj
  · exact (List.getElem?_eq_some_iff.mp hi).1
  · exact ih j hj

/-- Before the queue has run out, those visited list more than has been visited. -/
theorem lt_listed_of_breadthFirst {queue order : List Nat}
    (h : a.breadthFirst max queue = some order) : ∀ k < order.length,
      k < queue.length + ((order.take k).flatMap a.childrenAt).length := by
  refine breadthFirst_induction bounded (P := fun queue order => ∀ k < order.length,
    k < queue.length + ((order.take k).flatMap a.childrenAt).length) (by simp) ?_ h
  intro i n queue order hi ih k hk
  cases k with
  | zero => simp
  | succ k =>
    have := ih k (by simpa using hk)
    simp only [List.take_succ_cons, List.flatMap_cons, childrenAt_eq hi, List.length_append,
      List.length_cons] at this ⊢
    omega

theorem Linked.exists_breadthFirst (linked : Linked a) (queue : List Nat)
    (inside : ∀ i ∈ queue, i < a.length) : ∃ order, a.breadthFirst max queue = some order := by
  induction hk : (queue.flatMap a.subtree).length using Nat.strongRecOn generalizing queue with
  | ind k ih =>
    cases queue with
    | nil => exact ⟨[], breadthFirst_nil⟩
    | cons i queue =>
      have hi := inside i List.mem_cons_self
      have hn : a[i]? = some a[i] := List.getElem?_eq_getElem hi
      have hchildren : ∀ c ∈ a[i].children, c < a.length := fun c hc =>
        (linked.child_lt hn hc).2
      have hless : ((queue ++ a[i].children).flatMap a.subtree).length < k := by
        have hperm := (List.reverse_perm a[i].children).flatMap_right a.subtree
        rw [← hk, List.flatMap_append, List.flatMap_cons, linked.subtree_eq hn,
          List.length_append, List.length_append, List.length_cons, hperm.length_eq]
        omega
      obtain ⟨order, horder⟩ := ih _ hless _ (fun j hj => by
        obtain hj | hj := List.mem_append.mp hj
        · exact inside j (List.mem_cons_of_mem _ hj)
        · exact hchildren j hj) rfl
      exact ⟨i :: order, by rw [breadthFirst_cons bounded hn, horder]; rfl⟩

end

/-- The positions level by level. -/
def levelOrder (a : Arena) (max : Nat) : List Nat :=
  (a.breadthFirst max [rootPosition]).getD []

/-- The order holds the root and the children of what it holds, and every position once. -/
structure Levels (a : Arena) (order : List Nat) : Prop where
  eq : order = rootPosition :: order.flatMap a.childrenAt
  perm : order.Perm (List.range a.length)
  ahead : ∀ k < order.length, k < 1 + ((order.take k).flatMap a.childrenAt).length

theorem Linked.levels {a : Arena} {max : Nat} (linked : Linked a)
    (bounded : ∀ {i : Nat} {n : Node}, a[i]? = some n → n.size ≤ max) :
    a.breadthFirst max [rootPosition] = some (a.levelOrder max) ∧
      Levels a (a.levelOrder max) := by
  obtain ⟨r, hr, -⟩ := linked.root
  have hroot : rootPosition < a.length := (List.getElem?_eq_some_iff.mp hr).1
  obtain ⟨order, horder⟩ := linked.exists_breadthFirst bounded [rootPosition] (by simpa using hroot)
  have heq := breadthFirst_eq bounded horder
  rw [levelOrder, horder]
  exact ⟨rfl, heq, linked.perm_range (.of_eq heq) (lt_of_mem_breadthFirst bounded horder),
    lt_listed_of_breadthFirst bounded horder⟩

end Arena

end RTree

end SpatialSegment
