import Mathlib.Data.List.Count
import Mathlib.Data.List.Nodup
import Mathlib.Tactic.Common
import SpatialSegment.Proofs.Lists
import SpatialSegment.RTree

/-!
# The order in which an arena is visited

In a linked arena every position but that of the root is listed once, by the node its own link leads
to, and positions grow from a node to its children. Then every way with a stack comes to an end, and
the one from the root visits every position exactly once.
-/

namespace SpatialSegment

namespace RTree

/-- Induction over the stacks of a way on which positions only grow. What holds of a stack may be
used for it with any later positions on top. -/
theorem stack_induction (bound : Nat) {P : List Nat → Prop} (nil : P [])
    (step : ∀ i stack, i < bound → P stack →
      (∀ top, (∀ c ∈ top, i < c ∧ c < bound) → P (top ++ stack)) → P (i :: stack))
    (stack : List Nat) (inside : ∀ i ∈ stack, i < bound) : P stack := by
  have pushed : ∀ k top, (∀ c ∈ top, bound - k ≤ c ∧ c < bound) → ∀ stack, P stack →
      P (top ++ stack) := by
    intro k
    induction k with
    | zero =>
      intro top htop stack hstack
      cases top with
      | nil => exact hstack
      | cons c top =>
        have := htop c List.mem_cons_self
        omega
    | succ k ih =>
      intro top htop stack hstack
      induction top with
      | nil => exact hstack
      | cons c top ihtop =>
        have hc := htop c List.mem_cons_self
        have hrest := ihtop fun x hx => htop x (List.mem_cons_of_mem _ hx)
        refine step c (top ++ stack) hc.2 hrest fun later hlater => ?_
        refine ih later (fun x hx => ?_) _ hrest
        have := hlater x hx
        omega
  have h := pushed bound stack (fun c hc => ⟨by omega, inside c hc⟩) [] nil
  rwa [List.append_nil] at h

namespace Arena

/-- Links and lists agree, the root alone has no link, and children come later than their node. -/
structure Linked (a : Arena) : Prop where
  root : ∃ n : Node, a[rootPosition]? = some n ∧ n.parent = none
  down : ∀ {i : Nat} {n : Node}, a[i]? = some n → ∀ c ∈ n.children,
    i < c ∧ ∃ m, a[c]? = some m ∧ m.parent = some i
  up : ∀ {i : Nat} {n : Node}, a[i]? = some n → i ≠ rootPosition →
    ∃ p q, n.parent = some p ∧ a[p]? = some q ∧ i ∈ q.children
  nodup : ∀ {i : Nat} {n : Node}, a[i]? = some n → n.children.Nodup

theorem linked_singleton {n : Node} (hparent : n.parent = none) (hchildren : n.children = []) :
    Linked [n] := by
  refine ⟨⟨n, rfl, hparent⟩, fun hi c hc => ?_, fun hi hroot => ?_, fun hi => ?_⟩
  · rw [(eq_of_getElem?_singleton hi).2, hchildren] at hc
    cases hc
  · exact absurd (eq_of_getElem?_singleton hi).1 hroot
  · rw [(eq_of_getElem?_singleton hi).2, hchildren]
    exact List.nodup_nil

/-- The positions of a stack and all positions below them, as a search without a region finds them.
-/
def visits (a : Arena) : List Nat → Option (List Nat)
  | [] => some []
  | i :: stack =>
    match a[i]? with
    | none => none
    | some n => do
      let rest ← a |>.visits (n.children.reverse ++ stack)
      return i :: rest
partial_fixpoint

/-- The positions at and below one. -/
def subtree (a : Arena) (i : Nat) : List Nat :=
  (a.visits [i]).getD []

def childrenAt (a : Arena) (i : Nat) : List Nat :=
  (a[i]?.map Node.children).getD []

section

variable {a : Arena}

theorem childrenAt_eq {i : Nat} {n : Node} (h : a[i]? = some n) : a.childrenAt i = n.children := by
  rw [childrenAt, h]
  rfl

theorem exists_node_of_mem_childrenAt {i c : Nat} (h : c ∈ a.childrenAt i) :
    ∃ n, a[i]? = some n ∧ c ∈ n.children := by
  cases hi : a[i]? with
  | none => simp [childrenAt, hi] at h
  | some n => exact ⟨n, rfl, childrenAt_eq hi ▸ h⟩

@[simp] theorem visits_nil : a.visits [] = some [] := by
  rw [visits]

theorem visits_cons {i : Nat} {n : Node} (h : a[i]? = some n) (stack : List Nat) :
    a.visits (i :: stack) = (a.visits (n.children.reverse ++ stack)).map (i :: ·) := by
  rw [visits]
  simp only [h]
  cases a.visits (n.children.reverse ++ stack) <;> rfl

theorem visits_induction {P : List Nat → List Nat → Prop} (nil : P [] [])
    (cons : ∀ i n stack order, a[i]? = some n →
      a.visits (n.children.reverse ++ stack) = some order →
      P (n.children.reverse ++ stack) order → P (i :: stack) (i :: order))
    {stack order : List Nat} (h : a.visits stack = some order) : P stack order := by
  induction order generalizing stack with
  | nil =>
    cases stack with
    | nil => exact nil
    | cons i stack =>
      cases hi : a[i]? with
      | none => simp [visits, hi] at h
      | some n => simp [visits_cons hi] at h
  | cons j order ih =>
    cases stack with
    | nil => simp at h
    | cons i stack =>
      cases hi : a[i]? with
      | none => simp [visits, hi] at h
      | some n =>
        simp only [visits_cons hi, Option.map_eq_some_iff, List.cons.injEq] at h
        obtain ⟨order', hrest, rfl, rfl⟩ := h
        exact cons i n stack order' hi hrest (ih hrest)

theorem visits_append {xs ys order : List Nat} (h : a.visits xs = some order) :
    a.visits (xs ++ ys) = (a.visits ys).map (order ++ ·) := by
  refine visits_induction (P := fun xs order =>
    a.visits (xs ++ ys) = (a.visits ys).map (order ++ ·)) (by simp) ?_ h
  intro i n stack order hi _ ih
  rw [List.cons_append, visits_cons hi, ← List.append_assoc, ih, Option.map_map]
  rfl

theorem lt_of_mem_visits {stack order : List Nat} (h : a.visits stack = some order) :
    ∀ i ∈ order, i < a.length := by
  refine visits_induction (P := fun _ order => ∀ i ∈ order, i < a.length) (by simp) ?_ h
  intro i n stack order hi _ ih j hj
  obtain rfl | hj := List.mem_cons.mp hj
  · exact (List.getElem?_eq_some_iff.mp hi).1
  · exact ih j hj

theorem Linked.child_lt (linked : Linked a) {i : Nat} {n : Node} (h : a[i]? = some n) {c : Nat}
    (hc : c ∈ n.children) : i < c ∧ c < a.length := by
  obtain ⟨hlt, m, hm, -⟩ := linked.down h c hc
  exact ⟨hlt, (List.getElem?_eq_some_iff.mp hm).1⟩

theorem Linked.pos (linked : Linked a) : rootPosition < a.length := by
  obtain ⟨r, hr, -⟩ := linked.root
  exact (List.getElem?_eq_some_iff.mp hr).1

/-- A link leads to an earlier node that lists the position. -/
theorem Linked.exists_parent (linked : Linked a) {i p : Nat} {n : Node} (hi : a[i]? = some n)
    (hp : n.parent = some p) : p < i ∧ ∃ q, a[p]? = some q ∧ i ∈ q.children := by
  have hroot : i ≠ rootPosition := by
    rintro rfl
    obtain ⟨r, hr, hnone⟩ := linked.root
    rw [hi] at hr
    cases hr
    rw [hp] at hnone
    cases hnone
  obtain ⟨p', q, hp', hq, hmem⟩ := linked.up hi hroot
  rw [hp] at hp'
  cases hp'
  exact ⟨(linked.child_lt hq hmem).1, q, hq, hmem⟩

theorem Linked.exists_visits (linked : Linked a) (stack : List Nat)
    (inside : ∀ i ∈ stack, i < a.length) : ∃ order, a.visits stack = some order := by
  refine stack_induction a.length (P := fun stack => ∃ order, a.visits stack = some order)
    ⟨[], visits_nil⟩ ?_ stack inside
  intro i stack hi _ ih
  have hnode : a[i]? = some a[i] := List.getElem?_eq_getElem hi
  obtain ⟨order, horder⟩ := ih (a[i].children.reverse) fun c hc =>
    linked.child_lt hnode (List.mem_reverse.mp hc)
  exact ⟨i :: order, by rw [visits_cons hnode, horder]; rfl⟩

theorem Linked.parent_unique (linked : Linked a) {i j c : Nat} {n m : Node}
    (hi : a[i]? = some n) (hj : a[j]? = some m) (hn : c ∈ n.children) (hm : c ∈ m.children) :
    i = j := by
  obtain ⟨-, x, hx, hxi⟩ := linked.down hi c hn
  obtain ⟨-, y, hy, hyj⟩ := linked.down hj c hm
  rw [hx] at hy
  cases hy
  exact Option.some.inj (hxi.symm.trans hyj)

/-- A child is listed as often as its node occurs. -/
theorem Linked.count_flatMap_childrenAt (linked : Linked a) {p c : Nat} {q : Node}
    (hp : a[p]? = some q) (hc : c ∈ q.children) (order : List Nat) :
    (order.flatMap a.childrenAt).count c = order.count p := by
  induction order with
  | nil => rfl
  | cons i order ih =>
    have hcount : (a.childrenAt i).count c = if i = p then 1 else 0 := by
      split
      · rename_i hip
        rw [hip, childrenAt_eq hp]
        exact List.count_eq_one_of_mem (linked.nodup hp) hc
      · rename_i hip
        refine List.count_eq_zero.mpr fun hmem => hip ?_
        obtain ⟨n, hi, hn⟩ := exists_node_of_mem_childrenAt hmem
        exact linked.parent_unique hi hp hn hc
    rw [List.flatMap_cons, List.count_append, hcount, ih, List.count_cons, Nat.add_comm]
    simp only [beq_iff_eq]

/-- An order that has the root and the children of what it has, each as often as listed, has every
position once. -/
theorem Linked.perm_range (linked : Linked a) {order : List Nat}
    (h : order.Perm (rootPosition :: order.flatMap a.childrenAt))
    (inside : ∀ i ∈ order, i < a.length) : order.Perm (List.range a.length) := by
  have once : ∀ i < a.length, order.count i = 1 := by
    intro i
    induction i using Nat.strongRecOn with
    | ind i ih =>
      intro hi
      have hcount := h.count_eq i
      rw [List.count_cons] at hcount
      by_cases h0 : i = rootPosition
      · have hnone : (order.flatMap a.childrenAt).count rootPosition = 0 := by
          refine List.count_eq_zero.mpr fun hmem => ?_
          obtain ⟨j, -, hj⟩ := List.mem_flatMap.mp hmem
          obtain ⟨n, hn, hc⟩ := exists_node_of_mem_childrenAt hj
          exact absurd (linked.child_lt hn hc).1 (Nat.not_lt_zero j)
        simpa [h0, hnone] using hcount
      · obtain ⟨p, q, -, hq, hmem⟩ := linked.up (List.getElem?_eq_getElem hi) h0
        have hlt := (linked.child_lt hq hmem).1
        rw [linked.count_flatMap_childrenAt hq hmem, ih p hlt (by omega)] at hcount
        simpa [Ne.symm h0] using hcount
  refine List.perm_iff_count.mpr fun i => ?_
  rw [List.count_range]
  split
  · rename_i hi
    exact once i hi
  · rename_i hi
    exact List.count_eq_zero.mpr fun hmem => hi (inside i hmem)

theorem visits_perm {stack order : List Nat} (h : a.visits stack = some order) :
    order.Perm (stack ++ order.flatMap a.childrenAt) := by
  refine visits_induction (P := fun stack order =>
    order.Perm (stack ++ order.flatMap a.childrenAt)) (.refl _) ?_ h
  intro i n stack order hi _ ih
  refine .cons i (ih.trans ?_)
  have hreverse : (n.children.reverse ++ stack).Perm (stack ++ n.children) :=
    ((List.reverse_perm _).append_right _).trans List.perm_append_comm
  rw [List.flatMap_cons, childrenAt_eq hi, List.append_eq, ← List.append_assoc]
  exact hreverse.append_right _

/-- The way from the root visits every position exactly once. -/
theorem Linked.visits_root (linked : Linked a) :
    ∃ order, a.visits [rootPosition] = some order ∧ order.Perm (List.range a.length) := by
  obtain ⟨order, horder⟩ := linked.exists_visits [rootPosition] (by simpa using linked.pos)
  exact ⟨order, horder, linked.perm_range (visits_perm horder) (lt_of_mem_visits horder)⟩

/-! ## What lies below a position -/

theorem Linked.visits_eq (linked : Linked a) (stack : List Nat)
    (inside : ∀ i ∈ stack, i < a.length) :
    a.visits stack = some (stack.flatMap a.subtree) := by
  induction stack with
  | nil => exact visits_nil
  | cons i stack ih =>
    obtain ⟨below, hbelow⟩ := linked.exists_visits [i] (by simpa using inside i)
    have hrest := ih fun j hj => inside j (List.mem_cons_of_mem _ hj)
    rw [← List.singleton_append, visits_append hbelow, hrest, List.singleton_append,
      List.flatMap_cons, subtree, hbelow]
    rfl

theorem Linked.subtree_eq (linked : Linked a) {i : Nat} {n : Node} (hi : a[i]? = some n) :
    a.subtree i = i :: n.children.reverse.flatMap a.subtree := by
  have hchildren := linked.visits_eq n.children.reverse fun c hc =>
    (linked.child_lt hi (List.mem_reverse.mp hc)).2
  rw [subtree, visits_cons hi, List.append_nil, hchildren]
  rfl

end

end Arena

end RTree

end SpatialSegment
