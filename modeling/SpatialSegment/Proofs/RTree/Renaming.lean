import SpatialSegment.Proofs.RTree.LevelOrder
import SpatialSegment.Proofs.RTree.Query

/-!
# Arenas that differ in their positions only

A renaming of positions that keeps numbers, boxes, entries and the order of children keeps whatever
an index answers. The renumbering by breadth-first order is one, and makes the arena level-ordered.
-/

namespace SpatialSegment

namespace RTree

/-- The node with other names for positions. -/
def Node.rename (π : Nat → Nat) (n : Node) : Node where
  id := n.id
  box := n.box
  parent := n.parent.map π
  items :=
    match n.items with
    | .leaf entries => .leaf entries
    | .directory children => .directory (children.map π)

section

variable {π : Nat → Nat} {n : Node}

@[simp] theorem Node.children_rename : (n.rename π).children = n.children.map π := by
  unfold Node.rename Node.children
  cases n.items <;> rfl

@[simp] theorem Node.entries_rename : (n.rename π).entries = n.entries := by
  unfold Node.rename Node.entries
  cases n.items <;> rfl

@[simp] theorem Node.size_rename : (n.rename π).size = n.size := by
  unfold Node.rename Node.size
  cases n.items <;> simp

end

namespace Arena

/-- One arena is the other under new names for its positions. -/
structure Renames (π : Nat → Nat) (a b : Arena) : Prop where
  length : b.length = a.length
  root : π rootPosition = rootPosition
  lt : ∀ {i : Nat}, i < a.length → π i < b.length
  injective : ∀ {i j : Nat}, i < a.length → j < a.length → π i = π j → i = j
  node : ∀ {i : Nat} {n : Node}, a[i]? = some n → b[π i]? = some (n.rename π)

section

variable {a b : Arena} {π : Nat → Nat}

theorem Renames.boxAt_eq (renames : Renames π a b) {i : Nat} (hi : i < a.length) :
    b.boxAt (π i) = a.boxAt i := by
  have hn : a[i]? = some a[i] := List.getElem?_eq_getElem hi
  rw [Arena.boxAt_eq (renames.node hn), Arena.boxAt_eq hn]
  rfl

/-- A search takes the same way under the new names. -/
theorem Renames.search_eq (renames : Renames π a b) (linked : Linked a) (region : Box)
    (stack : List Nat) (inside : ∀ i ∈ stack, i < a.length) (found : List Entry) :
    b.search region found (stack.map π) = a.search region found stack := by
  refine stack_induction a.length (P := fun stack => ∀ found,
    b.search region found (stack.map π) = a.search region found stack)
    (by simp) ?_ stack inside found
  intro i stack hi hstack hpush found
  have hn : a[i]? = some a[i] := List.getElem?_eq_getElem hi
  have hm := renames.node hn
  rw [List.map_cons]
  cases h : a[i].box.intersects region with
  | false => rw [search_skip hn h, search_skip hm h, hstack]
  | true =>
    cases hitems : a[i].items with
    | leaf es =>
      have hleaf : (a[i].rename π).items = .leaf es := by rw [Node.rename, hitems]
      rw [search_leaf hn hitems h, search_leaf hm hleaf h, hstack]
    | directory cs =>
      have hdirectory : (a[i].rename π).items = .directory (cs.map π) := by
        rw [Node.rename, hitems]
      have hlt : ∀ c ∈ cs, i < c ∧ c < a.length := fun c hc =>
        linked.child_lt hn (by rwa [Node.children, hitems])
      have hfilter : (cs.map π).filter (fun c => (b.boxAt c).intersects region) =
          (cs.filter fun c => (a.boxAt c).intersects region).map π := by
        rw [List.filter_map]
        congr 1
        refine List.filter_congr fun c hc => ?_
        rw [Function.comp_apply, renames.boxAt_eq (hlt c hc).2]
      rw [search_directory hn hitems h, search_directory hm hdirectory h, hfilter,
        ← List.map_reverse, ← List.map_append, hpush]
      exact fun c hc => hlt c (List.mem_of_mem_filter (List.mem_reverse.mp hc))

theorem deepest_cons {i : Nat} {n : Node} (hi : a[i]? = some n) (seen depth : Nat)
    (stack : List (Nat × Nat)) :
    a.deepest seen ((i, depth) :: stack) = a.deepest (max seen depth)
      (n.children.reverse.map (fun c => (c, depth + 1)) ++ stack) := by
  rw [deepest]
  simp only [hi]

/-- The depths are the same under the new names. -/
theorem Renames.deepest_eq (renames : Renames π a b) (linked : Linked a)
    (stack : List (Nat × Nat)) (inside : ∀ i ∈ stack.map Prod.fst, i < a.length) (seen : Nat) :
    b.deepest seen (stack.map fun p => (π p.1, p.2)) = a.deepest seen stack := by
  refine stack_induction a.length (P := fun positions =>
    ∀ (stack : List (Nat × Nat)) (seen : Nat), stack.map Prod.fst = positions →
      b.deepest seen (stack.map fun p => (π p.1, p.2)) = a.deepest seen stack)
    ?_ ?_ _ inside stack seen rfl
  · intro stack seen h
    rw [List.map_eq_nil_iff.mp h, List.map_nil, deepest, deepest]
  · intro i positions hi _ hpush stack seen h
    obtain ⟨⟨j, depth⟩, stack, rfl, hj, hrest⟩ := List.map_eq_cons_iff.mp h
    obtain rfl : i = j := hj.symm
    have hn : a[i]? = some a[i] := List.getElem?_eq_getElem hi
    have hnext := hpush a[i].children.reverse
      (fun c hc => linked.child_lt hn (List.mem_reverse.mp hc))
      (a[i].children.reverse.map (fun c => (c, depth + 1)) ++ stack) (max seen depth)
      (by simp [← hrest, Function.comp_def])
    rw [List.map_cons, deepest_cons hn, deepest_cons (renames.node hn), ← hnext]
    simp [Function.comp_def]

end

/-! ## Renumbering -/

/-- The nodes in an order, with their places in it as positions. -/
def renumber (a : Arena) (order : List Nat) : Arena :=
  (order.filterMap (a[·]?)).map (Node.rename (order.idxOf ·))

theorem getElem?_filterMap_inside {α : Type} {xs : List α} {order : List Nat}
    (inside : ∀ i ∈ order, i < xs.length) (k : Nat) :
    (order.filterMap (xs[·]?))[k]? = order[k]?.bind (xs[·]?) := by
  induction order generalizing k with
  | nil => rfl
  | cons i order ih =>
    obtain ⟨x, hi⟩ : ∃ x, xs[i]? = some x :=
      ⟨_, List.getElem?_eq_getElem (inside i List.mem_cons_self)⟩
    rw [List.filterMap_cons, hi]
    cases k with
    | zero => exact hi.symm
    | succ k => exact ih (fun j hj => inside j (List.mem_cons_of_mem _ hj)) k

section

variable {a : Arena} {order : List Nat}

theorem Levels.lt_of_mem (levels : Levels a order) {i : Nat} (hi : i ∈ order) : i < a.length :=
  List.mem_range.mp (levels.perm.subset hi)

theorem Levels.mem (levels : Levels a order) {i : Nat} (hi : i < a.length) : i ∈ order :=
  levels.perm.symm.subset (List.mem_range.mpr hi)

theorem Levels.length_eq (levels : Levels a order) : order.length = a.length := by
  simpa using levels.perm.length_eq

theorem Levels.nodup (levels : Levels a order) : order.Nodup :=
  levels.perm.nodup_iff.mpr List.nodup_range

theorem Levels.getElem?_renumber (levels : Levels a order) (k : Nat) :
    (renumber a order)[k]? =
      (order[k]?.bind (a[·]?)).map (Node.rename (order.idxOf ·)) := by
  rw [renumber, List.getElem?_map, getElem?_filterMap_inside fun i => levels.lt_of_mem]

theorem Levels.length_renumber (levels : Levels a order) :
    (renumber a order).length = a.length := by
  rw [renumber, List.length_map, ← levels.length_eq]
  have inside : ∀ i ∈ order, i < a.length := fun i => levels.lt_of_mem
  clear levels
  induction order with
  | nil => rfl
  | cons i order ih =>
    rw [List.filterMap_cons, List.getElem?_eq_getElem (inside i List.mem_cons_self)]
    exact congrArg (· + 1) (ih fun j hj => inside j (List.mem_cons_of_mem _ hj))

theorem Levels.exists_node (levels : Levels a order) {k : Nat} {m : Node}
    (hk : (renumber a order)[k]? = some m) : ∃ i n, order[k]? = some i ∧ order.idxOf i = k ∧
      a[i]? = some n ∧ m = n.rename (order.idxOf ·) := by
  rw [levels.getElem?_renumber, Option.map_eq_some_iff] at hk
  obtain ⟨n, hn, rfl⟩ := hk
  obtain ⟨i, hi, hn⟩ := Option.bind_eq_some_iff.mp hn
  obtain ⟨hlt, rfl⟩ := List.getElem?_eq_some_iff.mp hi
  exact ⟨order[k], n, hi, levels.nodup.idxOf_getElem k hlt, hn, rfl⟩

theorem Levels.renames (levels : Levels a order) :
    Renames (order.idxOf ·) a (renumber a order) where
  length := levels.length_renumber
  root := by
    rw [levels.eq, List.idxOf_cons_self]
    rfl
  lt hi := by
    rw [levels.length_renumber, ← levels.length_eq]
    exact List.idxOf_lt_length_of_mem (levels.mem hi)
  injective hi _ h := (List.idxOf_inj (levels.mem hi)).mp h
  node {i n} hi := by
    have hmem := levels.mem (List.getElem?_eq_some_iff.mp hi).1
    have hplace : order[order.idxOf i]? = some i := by
      rw [List.getElem?_eq_getElem (List.idxOf_lt_length_of_mem hmem), List.getElem_idxOf]
    rw [levels.getElem?_renumber, hplace]
    simp [hi]

/-- In the order by level a child has a later place than its node. -/
theorem Levels.idxOf_lt (levels : Levels a order) (linked : Linked a) {i c : Nat} {n : Node}
    (hi : a[i]? = some n) (hc : c ∈ n.children) : order.idxOf i < order.idxOf c := by
  obtain ⟨hic, hclt⟩ := linked.child_lt hi hc
  have hcmem := levels.mem hclt
  have hplace := List.idxOf_lt_length_of_mem hcmem
  have hroot : order.idxOf c ≠ 0 := by
    intro h0
    have := (List.idxOf_inj hcmem).mp (h0.trans levels.renames.root.symm)
    rw [this] at hic
    exact absurd hic (Nat.not_lt_zero i)
  have hahead := levels.ahead _ hplace
  -- The child stands among the children of the nodes before it.
  have hlisted : c ∈ (order.take (order.idxOf c)).flatMap a.childrenAt := by
    obtain ⟨k, hk⟩ := Nat.exists_eq_succ_of_ne_zero hroot
    have hget : order[order.idxOf c] = c := List.getElem_idxOf _
    have hsplit : order = rootPosition :: ((order.take (order.idxOf c)).flatMap a.childrenAt ++
        (order.drop (order.idxOf c)).flatMap a.childrenAt) := by
      rw [← List.flatMap_append, List.take_append_drop]
      exact levels.eq
    generalize (order.take (order.idxOf c)).flatMap a.childrenAt = front at *
    generalize (order.drop (order.idxOf c)).flatMap a.childrenAt = back at *
    have hfront : k < front.length := by omega
    have : order[order.idxOf c]? = some front[k] := by
      rw [hk]
      conv_lhs => rw [hsplit]
      rw [List.getElem?_cons_succ, List.getElem?_append_left hfront,
        List.getElem?_eq_getElem hfront]
    rw [List.getElem?_eq_getElem hplace, Option.some.injEq, hget] at this
    exact this ▸ List.getElem_mem hfront
  obtain ⟨j, hj, hcj⟩ := List.mem_flatMap.mp hlisted
  obtain ⟨m, hm, hmem⟩ := exists_node_of_mem_childrenAt hcj
  rw [linked.parent_unique hi hm hc hmem]
  obtain ⟨k, hk, rfl⟩ := List.getElem_of_mem hj
  rw [List.length_take] at hk
  rw [List.getElem_take, levels.nodup.idxOf_getElem]
  omega

end

/-! ## Level-ordered arenas -/

/-- The children of the nodes in turn are the positions after the root in turn. -/
structure LevelOrdered (a : Arena) : Prop where
  linked : Linked a
  listed : a.flatMap Node.children = List.range' 1 (a.length - 1)

section

variable {a : Arena} {order : List Nat}

theorem Linked.renumber (linked : Linked a) (levels : Levels a order) :
    Linked (renumber a order) := by
  have hrenames := levels.renames
  constructor
  · obtain ⟨r, hr, hnone⟩ := linked.root
    have hr' := hrenames.node hr
    rw [hrenames.root] at hr'
    exact ⟨_, hr', by rw [Node.rename, hnone]; rfl⟩
  · intro k m hk c hc
    obtain ⟨i, n, -, rfl, hn, rfl⟩ := levels.exists_node hk
    rw [Node.children_rename] at hc
    obtain ⟨j, hj, rfl⟩ := List.mem_map.mp hc
    obtain ⟨-, x, hx, hparent⟩ := linked.down hn j hj
    exact ⟨levels.idxOf_lt linked hn hj, _, hrenames.node hx, by rw [Node.rename, hparent]; rfl⟩
  · intro k m hk hroot
    obtain ⟨i, n, -, rfl, hn, rfl⟩ := levels.exists_node hk
    have hi : i ≠ rootPosition := fun h => hroot (h ▸ hrenames.root)
    obtain ⟨p, q, hp, hq, hmem⟩ := linked.up hn hi
    refine ⟨order.idxOf p, _, by rw [Node.rename, hp]; rfl, hrenames.node hq, ?_⟩
    rw [Node.children_rename]
    exact List.mem_map_of_mem hmem
  · intro k m hk
    obtain ⟨i, n, -, rfl, hn, rfl⟩ := levels.exists_node hk
    rw [Node.children_rename]
    refine (linked.nodup hn).map_on fun x hx y hy h => ?_
    exact hrenames.injective (linked.child_lt hn hx).2 (linked.child_lt hn hy).2 h

theorem Levels.levelOrdered (levels : Levels a order) (linked : Linked a) :
    LevelOrdered (renumber a order) := by
  refine ⟨linked.renumber levels, ?_⟩
  have hnodes : ∀ xs : List Nat, (∀ i ∈ xs, i < a.length) →
      ((xs.filterMap (a[·]?)).map (Node.rename (order.idxOf ·))).flatMap Node.children =
        (xs.flatMap a.childrenAt).map (order.idxOf ·) := by
    intro xs
    induction xs with
    | nil => exact fun _ => rfl
    | cons i xs ih =>
      intro inside
      obtain ⟨n, hi⟩ : ∃ n, a[i]? = some n :=
        ⟨_, List.getElem?_eq_getElem (inside i List.mem_cons_self)⟩
      rw [List.filterMap_cons, hi, List.flatMap_cons, List.map_append, childrenAt_eq hi,
        ← ih fun j hj => inside j (List.mem_cons_of_mem _ hj)]
      simp
  have hplaces : order.map (order.idxOf ·) = List.range order.length := by
    apply List.ext_getElem (by simp)
    intro k hk hk'
    rw [List.length_map] at hk
    rw [List.getElem_map, List.getElem_range, levels.nodup.idxOf_getElem]
  have htail := congrArg List.tail hplaces
  rw [← List.map_tail] at htail
  have heq : order.tail = order.flatMap a.childrenAt := by
    conv_lhs => rw [levels.eq]
    rfl
  rw [Arena.renumber, hnodes order fun i => levels.lt_of_mem, ← heq, htail, levels.length_eq,
    ← Arena.renumber, levels.length_renumber, List.range_eq_range', List.tail_range']

end

/-- The first position that the node at a position lists, if it lists any. -/
def start (a : Arena) (k : Nat) : Nat :=
  1 + ((a.take k).flatMap Node.children).length

section

variable {a : Arena} {k : Nat} {n : Node}

theorem take_succ_eq (hk : a[k]? = some n) : a.take (k + 1) = a.take k ++ [n] := by
  rw [List.take_add_one, hk]
  rfl

theorem start_succ (hk : a[k]? = some n) : a.start (k + 1) = a.start k + n.children.length := by
  rw [start, start, take_succ_eq hk, List.flatMap_append, List.length_append, List.flatMap_cons,
    List.flatMap_nil, List.append_nil, Nat.add_assoc]

theorem LevelOrdered.pos (ordered : LevelOrdered a) : 0 < a.length := ordered.linked.pos

theorem LevelOrdered.start_length (ordered : LevelOrdered a) : a.start a.length = a.length := by
  have := ordered.pos
  rw [start, List.take_length, ordered.listed, List.length_range']
  omega

theorem LevelOrdered.children_eq (ordered : LevelOrdered a) (hk : a[k]? = some n) :
    n.children = List.range' (a.start k) n.children.length := by
  have hsplit : (a.take k).flatMap Node.children ++ (n.children ++
      (a.drop (k + 1)).flatMap Node.children) = List.range' 1 (a.length - 1) := by
    rw [← ordered.listed]
    conv_rhs => rw [← List.take_append_drop (k + 1) a, take_succ_eq hk]
    simp
  obtain ⟨m, -, hfront, hrest⟩ := List.range'_eq_append_iff.mp hsplit.symm
  obtain ⟨l, -, hchildren, -⟩ := List.range'_eq_append_iff.mp hrest.symm
  have hm := congrArg List.length hfront
  have hl := congrArg List.length hchildren
  rw [List.length_range'] at hm hl
  rw [hl, start, hm]
  simpa using hchildren

theorem start_mono {j k : Nat} (h : j ≤ k) : a.start j ≤ a.start k := by
  induction h with
  | refl => exact Nat.le_refl _
  | @step k _ ih =>
    cases hk : a[k]? with
    | none =>
      have hlength := List.getElem?_eq_none_iff.mp hk
      have hsame : a.take (k + 1) = a.take k := by
        rw [List.take_of_length_le hlength, List.take_of_length_le (by omega)]
      rwa [start, start, hsame]
    | some n =>
      rw [start_succ hk]
      omega

theorem LevelOrdered.lt_start (ordered : LevelOrdered a) (hk : k < a.length) : k < a.start k := by
  by_cases h0 : k = rootPosition
  · rw [h0, start]
    exact Nat.lt_add_right _ Nat.one_pos
  · obtain ⟨p, q, -, hq, hmem⟩ := ordered.linked.up (List.getElem?_eq_getElem hk) h0
    have hpk := (ordered.linked.child_lt hq hmem).1
    have hchild := hmem
    rw [ordered.children_eq hq, List.mem_range'_1] at hchild
    have hmono : a.start (p + 1) ≤ a.start k := start_mono hpk
    rw [start_succ hq] at hmono
    omega

/-- The positions that nodes before one list and that are not before it themselves. -/
def waiting (a : Arena) (k : Nat) : List Nat :=
  List.range' k (a.start k - k)

theorem LevelOrdered.waiting_length (ordered : LevelOrdered a) : a.waiting a.length = [] := by
  rw [waiting, ordered.start_length, Nat.sub_self, List.range'_zero]

/-- In a queue each position is the first of those waiting, and its children go to the end. -/
theorem LevelOrdered.waiting_eq (ordered : LevelOrdered a) (hk : a[k]? = some n) :
    ∃ queue, a.waiting k = k :: queue ∧ queue ++ n.children = a.waiting (k + 1) := by
  have hlt := ordered.lt_start (List.getElem?_eq_some_iff.mp hk).1
  refine ⟨List.range' (k + 1) (a.start k - (k + 1)), ?_, ?_⟩
  · rw [waiting, ← List.range'_succ]
    congr 1
    omega
  · have hstart : a.start k = k + 1 + (a.start k - (k + 1)) := by omega
    rw [ordered.children_eq hk, waiting, start_succ hk]
    conv_lhs => rw [hstart]
    rw [Nat.add_sub_cancel_left, List.range'_append_1]
    congr 1
    omega

theorem LevelOrdered.breadthFirst_waiting (ordered : LevelOrdered a) {max : Nat}
    (bounded : ∀ {i : Nat} {n : Node}, a[i]? = some n → n.size ≤ max) (hk : k ≤ a.length) :
    a.breadthFirst max (a.waiting k) = some (List.range' k (a.length - k)) := by
  induction hk using Nat.decreasingInduction with
  | self => rw [ordered.waiting_length, Nat.sub_self, List.range'_zero, breadthFirst_nil]
  | of_succ k hk ih =>
    have hn : a[k]? = some a[k] := List.getElem?_eq_getElem hk
    obtain ⟨queue, hwaiting, hnext⟩ := ordered.waiting_eq hn
    have hrange : List.range' k (a.length - k) =
        k :: List.range' (k + 1) (a.length - (k + 1)) := by
      rw [← List.range'_succ]
      congr 1
      omega
    rw [hwaiting, breadthFirst_cons bounded hn, hnext, ih, hrange]
    rfl

/-- A level-ordered arena is in breadth-first order. -/
theorem LevelOrdered.levelOrder_eq (ordered : LevelOrdered a) {max : Nat}
    (bounded : ∀ {i : Nat} {n : Node}, a[i]? = some n → n.size ≤ max) :
    a.levelOrder max = List.range a.length := by
  have h := ordered.breadthFirst_waiting bounded (Nat.zero_le _)
  have hroot : a.waiting 0 = [rootPosition] := rfl
  rw [hroot] at h
  rw [levelOrder, h, List.range_eq_range']
  rfl

theorem LevelOrdered.levels (ordered : LevelOrdered a) {max : Nat}
    (bounded : ∀ {i : Nat} {n : Node}, a[i]? = some n → n.size ≤ max) :
    Levels a (List.range a.length) := by
  rw [← ordered.levelOrder_eq bounded]
  exact (ordered.linked.levels bounded).2

/-- Renumbering a level-ordered arena changes nothing. -/
theorem LevelOrdered.renumber_eq (ordered : LevelOrdered a) {max : Nat}
    (bounded : ∀ {i : Nat} {n : Node}, a[i]? = some n → n.size ≤ max) :
    renumber a (List.range a.length) = a := by
  have levels := ordered.levels bounded
  have hplace : ∀ i < a.length, (List.range a.length).idxOf i = i := fun i hi => by
    have hnodup : (List.range a.length).Nodup := List.nodup_range
    have h := hnodup.idxOf_getElem i (by simpa using hi)
    rwa [List.getElem_range] at h
  apply List.ext_getElem levels.length_renumber
  intro i hi hi'
  have hn : a[i]? = some a[i] := List.getElem?_eq_getElem hi'
  have hget := levels.renames.node hn
  simp only [hplace i hi'] at hget
  rw [List.getElem?_eq_getElem hi, Option.some.injEq] at hget
  rw [hget]
  have hparent : a[i].parent.map (fun p => (List.range a.length).idxOf p) = a[i].parent := by
    cases hp : a[i].parent with
    | none => rfl
    | some p =>
      obtain ⟨-, q, hq, -⟩ := ordered.linked.exists_parent hn hp
      rw [Option.map_some, hplace p (List.getElem?_eq_some_iff.mp hq).1]
  have hitems : (match a[i].items with
      | .leaf entries => Items.leaf entries
      | .directory children =>
        Items.directory (children.map fun c => (List.range a.length).idxOf c)) = a[i].items := by
    cases hcs : a[i].items with
    | leaf es => rfl
    | directory cs =>
      have hchildren : a[i].children = cs := by rw [Node.children, hcs]
      refine congrArg Items.directory ?_
      conv_rhs => rw [← List.map_id cs]
      exact List.map_congr_left fun c hc =>
        hplace c (ordered.linked.child_lt hn (hchildren ▸ hc)).2
  rw [Node.rename, hparent, hitems]

end

end Arena

end RTree

end SpatialSegment
