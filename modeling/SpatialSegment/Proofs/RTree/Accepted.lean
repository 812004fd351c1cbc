import Mathlib.Logic.Relation
import SpatialSegment.Proofs.RTree.Cursor
import SpatialSegment.Proofs.RTree.Renaming

/-!
# What is read from any bytes

Whatever bytes are read, reading ends, and what it gives is a tree: its shape is that of every arena
that has grown through the queue. On a linked arena every way ends, whatever its boxes are, so an
index that has been read answers each call. That boxes fit what they lie around is not asserted.
-/

namespace SpatialSegment

namespace RTree

namespace Arena

/-- One position is a child of the other. -/
def Lists (a : Arena) (p c : Nat) : Prop := c ∈ a.childrenAt p

section

variable {a : Arena}

/-- Every position but that of the root is listed once. -/
theorem Linked.children_perm (linked : Linked a) :
    (a.flatMap Node.children).Perm (List.range' 1 (a.length - 1)) := by
  obtain ⟨order, horder, hperm⟩ := linked.visits_root
  have hlisted : (order.flatMap a.childrenAt).Perm (a.flatMap Node.children) :=
    flatMap_perm hperm childrenAt_eq
  have hrange : List.range a.length = rootPosition :: List.range' 1 (a.length - 1) := by
    have hlength : a.length = a.length - 1 + 1 := (Nat.sub_add_cancel linked.pos).symm
    conv_lhs => rw [hlength, List.range_eq_range', List.range'_succ]
    rfl
  have hcons : (rootPosition :: a.flatMap Node.children).Perm
      (rootPosition :: List.range' 1 (a.length - 1)) := by
    rw [← hrange]
    exact ((hlisted.symm.cons _).trans (visits_perm horder).symm).trans hperm
  exact hcons.cons_inv

/-- The way up from a position comes to the root. -/
theorem Linked.reached (linked : Linked a) {i : Nat} (hi : i < a.length) :
    Relation.ReflTransGen a.Lists rootPosition i := by
  induction i using Nat.strongRecOn with
  | ind i ih =>
    by_cases h0 : i = rootPosition
    · rw [h0]
    · obtain ⟨p, q, -, hq, hmem⟩ := linked.up (List.getElem?_eq_getElem hi) h0
      have hlt := (linked.child_lt hq hmem).1
      exact (ih p hlt (by omega)).tail (by rwa [Lists, childrenAt_eq hq])

/-! ## Every way ends -/

theorem Linked.exists_search (linked : Linked a) (region : Box) (stack : List Nat)
    (inside : ∀ i ∈ stack, i < a.length) (found : List Entry) :
    ∃ es, a.search region found stack = some es := by
  refine stack_induction a.length (P := fun stack => ∀ found,
    ∃ es, a.search region found stack = some es) (fun found => ⟨found, search_nil found⟩) ?_
    stack inside found
  intro i stack hi hstack hpush found
  have hn : a[i]? = some a[i] := List.getElem?_eq_getElem hi
  cases h : a[i].box.intersects region with
  | false =>
    rw [search_skip hn h]
    exact hstack found
  | true =>
    cases hitems : a[i].items with
    | leaf es =>
      rw [search_leaf hn hitems h]
      exact hstack _
    | directory cs =>
      have hchildren : a[i].children = cs := by rw [Node.children, hitems]
      rw [search_directory hn hitems h]
      exact hpush _ (fun c hc => linked.child_lt hn
        (hchildren ▸ List.mem_of_mem_filter (List.mem_reverse.mp hc))) _

theorem Linked.exists_deepest (linked : Linked a) (stack : List (Nat × Nat))
    (inside : ∀ i ∈ stack.map Prod.fst, i < a.length) (seen : Nat) :
    ∃ depth, a.deepest seen stack = some depth := by
  refine stack_induction a.length (P := fun positions =>
    ∀ (stack : List (Nat × Nat)) (seen : Nat), stack.map Prod.fst = positions →
      ∃ depth, a.deepest seen stack = some depth) ?_ ?_ _ inside stack seen rfl
  · intro stack seen h
    rw [List.map_eq_nil_iff.mp h, deepest]
    exact ⟨seen, rfl⟩
  · intro i positions hi _ hpush stack seen h
    obtain ⟨⟨j, depth⟩, stack, rfl, hj, hrest⟩ := List.map_eq_cons_iff.mp h
    obtain rfl : i = j := hj.symm
    have hn : a[i]? = some a[i] := List.getElem?_eq_getElem hi
    rw [deepest_cons hn]
    exact hpush a[i].children.reverse
      (fun c hc => linked.child_lt hn (List.mem_reverse.mp hc)) _ _
      (by simp [← hrest, Function.comp_def])

end

end Arena

/-- What an index is that has been read from a file. -/
structure Accepted (file : Bytes) (t : RTree) : Prop where
  root : ∃ r, t.nodes[rootPosition]? = some r ∧ r.parent = none
  parent : ∀ {i : Nat} {n : Node}, t.nodes[i]? = some n → i ≠ rootPosition →
    ∃ p q, n.parent = some p ∧ p < i ∧ t.nodes[p]? = some q ∧ i ∈ q.children
  once : (t.nodes.flatMap Node.children).Perm (List.range' 1 (t.nodes.length - 1))
  reached : ∀ i < t.nodes.length, Relation.ReflTransGen t.nodes.Lists rootPosition i
  bounded : ∀ {i : Nat} {n : Node}, t.nodes[i]? = some n → n.size ≤ t.maxNodeSize
  listing : ∀ {i : Nat} {n : Node}, t.nodes[i]? = some n → n.items ≠ .directory []
  counted : t.length = t.entries.length
  few : t.nodes.length ≤ file.length
  height : t.nodes.deepest 0 [(rootPosition, 1)] = some t.height
  search : ∀ region found,
    t.nodes.search region found [rootPosition] = some (t.queryAfter region found)
  descend : ∀ target, ∃ i n es, t.nodes.descend target rootPosition = some i ∧
    t.nodes[i]? = some n ∧ n.items = .leaf es

theorem Growing.accepted {file : Bytes} {max : Nat} {visited : List Nat} {a : Arena}
    (growing : Growing file max [] visited a) (two_le : 2 ≤ max) :
    Accepted file (ofNodes a max two_le) where
  root := growing.linked.root
  parent hi hroot := by
    obtain ⟨p, q, hp, hq, hmem⟩ := growing.linked.up hi hroot
    exact ⟨p, q, hp, (growing.linked.child_lt hq hmem).1, hq, hmem⟩
  once := growing.linked.children_perm
  reached i hi := growing.linked.reached hi
  bounded := growing.size_le
  listing := growing.listing
  counted := rfl
  few := growing.length_le.1
  height := by
    obtain ⟨depth, h⟩ := growing.linked.exists_deepest [(rootPosition, 1)]
      (by simpa using growing.linked.pos) 0
    change a.deepest 0 [(rootPosition, 1)] = some ((a.deepest 0 [(rootPosition, 1)]).getD 0)
    rw [h]
    rfl
  search region found := by
    obtain ⟨es, h⟩ := growing.linked.exists_search region [rootPosition]
      (by simpa using growing.linked.pos) found
    change a.search region found [rootPosition] =
      some ((a.search region found [rootPosition]).getD found)
    rw [h]
    rfl
  descend target :=
    Arena.exists_descend growing.linked growing.listing target growing.linked.pos

/-- Reading any bytes ends: with a fault of the format, or with an index that is a tree. Nothing
else ends it, neither a fault of the input nor an abort. -/
theorem accepted_of_any_bytes (file : Bytes) :
    (∃ cause, ofBytes file = .error cause ∧
      (Cursor.index ⟨file, 0⟩).run = some (.error (.error (.format cause)))) ∨
    ∃ t, ofBytes file = .ok t ∧ (Cursor.index ⟨file, 0⟩).run = some (.ok t) ∧
      Accepted file t := by
  obtain ⟨cause, hread, hindex⟩ | ⟨max, two_le, visited, a, growing, hread, hindex⟩ :=
    index_cases file
  · exact .inl ⟨cause, hread, congrArg ExceptT.run hindex⟩
  · exact .inr ⟨_, hread, congrArg ExceptT.run hindex, growing.accepted two_le⟩

/-- A root that names itself as its child. -/
example : ofBytes (preamble 2 ++ Word.big 4 0 ++ Word.big 4 0 ++ [absentMarker, absentMarker] ++
    Word.big 4 rootOffset ++ absentChild) = .error (.sharedNode rootOffset) := by
  cbv

end RTree

end SpatialSegment
