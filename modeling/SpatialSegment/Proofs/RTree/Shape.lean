import Mathlib.Data.List.Nodup
import SpatialSegment.Proofs.RTree.Visits
import SpatialSegment.RTree.Table

/-!
# What insertion does to the shape of an arena

Boxes aside, insertion changes an arena in two ways: an entry is pushed onto a leaf, and a leaf is
replaced by a directory of two leaves at the end of the arena. Both leave a linked arena linked. The
two leaves are hung up under the directory one after the other, as nodes are when an index is read.
-/

namespace SpatialSegment

namespace RTree

/-- The node without its box. -/
def Node.unboxed (n : Node) : Node := { n with box := Box.fullSpace }

/-- The position and the list of a node's neighbours. -/
def Node.links (n : Node) : Option Nat × List Nat := (n.parent, n.children)

section

variable {n : Node} {cs : List Nat}

theorem Node.items_list (hn : n.items = .directory cs) (child : Nat) :
    (n.list child).items = .directory (cs ++ [child]) := by
  unfold list
  rw [hn]

theorem Node.children_list (hn : n.items = .directory cs) (child : Nat) :
    (n.list child).children = n.children ++ [child] := by
  rw [children, items_list hn, children, hn]

theorem Node.size_list (hn : n.items = .directory cs) (child : Nat) :
    (n.list child).size = n.size + 1 := by
  rw [size, items_list hn, size, hn]
  exact List.length_append

theorem Node.parent_list (n : Node) (child : Nat) : (n.list child).parent = n.parent := by
  unfold list
  split <;> rfl

theorem Node.id_list (n : Node) (child : Nat) : (n.list child).id = n.id := by
  unfold list
  split <;> rfl

end

namespace Arena

/-- The arenas differ in boxes only. -/
def SameShape (a b : Arena) : Prop := a.map Node.unboxed = b.map Node.unboxed

theorem getElem?_of_map_eq {α : Type} {f : Node → α} {a b : Arena} (h : a.map f = b.map f)
    {i : Nat} {n : Node} (hi : a[i]? = some n) : ∃ m, b[i]? = some m ∧ f m = f n := by
  have hget := congrArg (·[i]?) h
  simp only [List.getElem?_map, hi, Option.map_some] at hget
  obtain ⟨m, hm, hf⟩ := Option.map_eq_some_iff.mp hget.symm
  exact ⟨m, hm, hf⟩

section

variable {a b c : Arena}

theorem SameShape.symm (h : SameShape a b) : SameShape b a := Eq.symm h

theorem SameShape.trans (hab : SameShape a b) (hbc : SameShape b c) : SameShape a c :=
  Eq.trans hab hbc

/-- What does not look at boxes is the same at every position. -/
theorem SameShape.map_eq {α : Type} {f : Node → α} (hf : ∀ n, f n.unboxed = f n)
    (h : SameShape a b) : a.map f = b.map f := by
  have hmap := congrArg (List.map f) h
  simpa [Function.comp_def, hf] using hmap

theorem SameShape.get (h : SameShape a b) {i : Nat} {n : Node} (hi : a[i]? = some n) :
    ∃ box, b[i]? = some { n with box } := by
  obtain ⟨⟨id, box, parent, items⟩, hm, hshape⟩ := getElem?_of_map_eq h hi
  simp only [Node.unboxed, Node.mk.injEq, true_and] at hshape
  obtain ⟨rfl, rfl, rfl⟩ := hshape
  exact ⟨box, hm⟩

theorem SameShape.length_eq (h : SameShape a b) : a.length = b.length := by
  simpa using congrArg List.length h

theorem getElem?_refit (a : Arena) (i j : Nat) :
    (Arena.refit a i)[j]? = if i = j
      then a[j]?.map fun n => { n with box := Box.unionAll (a.itemBoxes n) } else a[j]? := by
  rw [Arena.refit, List.getElem?_modify]
  split <;> simp

theorem sameShape_refit (a : Arena) (i : Nat) : SameShape a (Arena.refit a i) := by
  apply List.ext_getElem?
  intro j
  simp only [List.getElem?_map, getElem?_refit]
  split
  · cases a[j]? <;> rfl
  · rfl

/-- Being linked is a property of the links alone. -/
theorem Linked.of_links (linked : Linked a) (h : a.map Node.links = b.map Node.links) :
    Linked b := by
  have back : ∀ {i : Nat} {m : Node}, b[i]? = some m →
      ∃ n, a[i]? = some n ∧ n.parent = m.parent ∧ n.children = m.children := fun hm => by
    obtain ⟨n, hn, hlinks⟩ := getElem?_of_map_eq h.symm hm
    exact ⟨n, hn, congrArg Prod.fst hlinks, congrArg Prod.snd hlinks⟩
  have forth : ∀ {i : Nat} {n : Node}, a[i]? = some n →
      ∃ m, b[i]? = some m ∧ m.parent = n.parent ∧ m.children = n.children := fun hn => by
    obtain ⟨m, hm, hlinks⟩ := getElem?_of_map_eq h hn
    exact ⟨m, hm, congrArg Prod.fst hlinks, congrArg Prod.snd hlinks⟩
  constructor
  · obtain ⟨n, hn, hnone⟩ := linked.root
    obtain ⟨m, hm, hparent, -⟩ := forth hn
    exact ⟨m, hm, hparent.trans hnone⟩
  · intro i m hm c hc
    obtain ⟨n, hn, -, hchildren⟩ := back hm
    obtain ⟨hlt, x, hx, hxi⟩ := linked.down hn c (hchildren ▸ hc)
    obtain ⟨y, hy, hparent, -⟩ := forth hx
    exact ⟨hlt, y, hy, hparent.trans hxi⟩
  · intro i m hm hi
    obtain ⟨n, hn, hparent, -⟩ := back hm
    obtain ⟨p, q, hp, hq, hmem⟩ := linked.up hn hi
    obtain ⟨q', hq', -, hchildren⟩ := forth hq
    exact ⟨p, q', hparent ▸ hp, hq', hchildren ▸ hmem⟩
  · intro i m hm
    obtain ⟨n, hn, -, hchildren⟩ := back hm
    exact hchildren ▸ linked.nodup hn

theorem SameShape.linked (h : SameShape a b) (linked : Linked a) : Linked b :=
  linked.of_links (h.map_eq fun _ => rfl)

theorem map_modify_of_eq {α : Type} {f : Node → α} {g : Node → Node} {i : Nat}
    (h : ∀ n, a[i]? = some n → f (g n) = f n) : (a.modify i g).map f = a.map f := by
  apply List.ext_getElem?
  intro j
  simp only [List.getElem?_map, List.getElem?_modify]
  split
  · rename_i hij
    subst hij
    cases hn : a[i]? with
    | none => rfl
    | some n => exact congrArg some (h n hn)
  · cases a[j]? <;> rfl

theorem Linked.push (linked : Linked a) {i : Nat} {n : Node} {es : List Entry}
    (hi : a[i]? = some n) (hn : n.items = .leaf es) (e : Entry) :
    Linked (a.modify i (·.push e)) := by
  refine linked.of_links (map_modify_of_eq fun m hm => ?_).symm
  rw [hi] at hm
  cases hm
  simp [Node.links, Node.push, Node.children, hn]

end

/-! ## One node more -/

/-- The arena with one node more, which the node at a position lists. -/
def hang (a : Arena) (p : Nat) (m : Node) : Arena :=
  (a ++ [m]).modify p (·.list a.length)

section

variable {a : Arena} {p : Nat} {q m : Node}

theorem length_hang : (a.hang p m).length = a.length + 1 := by
  simp [hang]

theorem hang_eq (hp : p < a.length) : a.hang p m = a.modify p (·.list a.length) ++ [m] :=
  modify_append_of_lt hp

theorem getElem?_hang_of_ne {j : Nat} {x : Node} (hj : a[j]? = some x) (hne : j ≠ p) :
    (a.hang p m)[j]? = some x := by
  have hlt : j < a.length := (List.getElem?_eq_some_iff.mp hj).1
  rw [hang, List.getElem?_modify, List.getElem?_append_left hlt, hj]
  simp [Ne.symm hne]

theorem getElem?_hang_self (hp : a[p]? = some q) :
    (a.hang p m)[p]? = some (q.list a.length) := by
  have hlt : p < a.length := (List.getElem?_eq_some_iff.mp hp).1
  rw [hang, List.getElem?_modify, List.getElem?_append_left hlt, hp]
  simp

theorem getElem?_hang_last (hp : p < a.length) : (a.hang p m)[a.length]? = some m := by
  rw [hang, List.getElem?_modify, List.getElem?_append_right (Nat.le_refl _)]
  simp [Nat.ne_of_lt hp]

theorem getElem?_hang_cases (hp : a[p]? = some q) {j : Nat} {x : Node}
    (hj : (a.hang p m)[j]? = some x) :
    (a[j]? = some x ∧ j ≠ p) ∨ (j = p ∧ x = q.list a.length) ∨ (j = a.length ∧ x = m) := by
  have hlt : p < a.length := (List.getElem?_eq_some_iff.mp hp).1
  by_cases hjp : j = p
  · subst hjp
    rw [getElem?_hang_self hp] at hj
    exact .inr (.inl ⟨rfl, (Option.some.inj hj).symm⟩)
  · obtain hlt' | rfl | hgt := Nat.lt_trichotomy j a.length
    · rw [getElem?_hang_of_ne (List.getElem?_eq_getElem hlt') hjp] at hj
      exact .inl ⟨(List.getElem?_eq_getElem hlt').trans hj, hjp⟩
    · rw [getElem?_hang_last hlt] at hj
      exact .inr (.inr ⟨rfl, (Option.some.inj hj).symm⟩)
    · rw [List.getElem?_eq_none (by rw [length_hang]; omega)] at hj
      cases hj

/-- A position keeps its link, and what it lists it still lists. -/
theorem exists_getElem?_hang {cs : List Nat} (hp : a[p]? = some q) (hq : q.items = .directory cs)
    {j : Nat} {x : Node} (hj : a[j]? = some x) :
    ∃ x', (a.hang p m)[j]? = some x' ∧ x'.parent = x.parent ∧ x.children ⊆ x'.children := by
  by_cases hjp : j = p
  · subst hjp
    rw [hp] at hj
    cases hj
    refine ⟨_, getElem?_hang_self hp, q.parent_list _, ?_⟩
    rw [Node.children_list hq]
    exact List.subset_append_left _ _
  · exact ⟨x, getElem?_hang_of_ne hj hjp, rfl, List.Subset.refl _⟩

theorem Linked.down_hang (linked : Linked a) {cs : List Nat} (hp : a[p]? = some q)
    (hq : q.items = .directory cs) {j c : Nat} {x : Node} (hj : a[j]? = some x)
    (hc : c ∈ x.children) : j < c ∧ ∃ y, (a.hang p m)[c]? = some y ∧ y.parent = some j := by
  obtain ⟨hjc, y, hy, hyj⟩ := linked.down hj _ hc
  obtain ⟨y', hy', hparent, -⟩ := exists_getElem?_hang (m := m) hp hq hy
  exact ⟨hjc, y', hy', hparent.trans hyj⟩

theorem Linked.up_hang (linked : Linked a) {cs : List Nat} (hp : a[p]? = some q)
    (hq : q.items = .directory cs) {j : Nat} {x : Node} (hj : a[j]? = some x)
    (hroot : j ≠ rootPosition) :
    ∃ i y, x.parent = some i ∧ (a.hang p m)[i]? = some y ∧ j ∈ y.children := by
  obtain ⟨i, y, hi, hy, hmem⟩ := linked.up hj hroot
  obtain ⟨y', hy', -, hsubset⟩ := exists_getElem?_hang (m := m) hp hq hy
  exact ⟨i, y', hi, hy', hsubset hmem⟩

/-- A node that lists nothing yet is hung up under a directory. -/
theorem Linked.hang (linked : Linked a) {cs : List Nat} (hp : a[p]? = some q)
    (hq : q.items = .directory cs) (hparent : m.parent = some p) (hchildren : m.children = []) :
    Linked (a.hang p m) := by
  have hlt : p < a.length := (List.getElem?_eq_some_iff.mp hp).1
  have hlist := Node.children_list hq a.length
  constructor
  · obtain ⟨r, hr, hnone⟩ := linked.root
    obtain ⟨r', hr', hparent', -⟩ := exists_getElem?_hang (m := m) hp hq hr
    exact ⟨r', hr', hparent'.trans hnone⟩
  · intro j x hj c hc
    obtain ⟨hj, -⟩ | ⟨rfl, rfl⟩ | ⟨rfl, rfl⟩ := getElem?_hang_cases hp hj
    · exact linked.down_hang hp hq hj hc
    · rw [hlist] at hc
      obtain hc | hc := List.mem_append.mp hc
      · exact linked.down_hang hp hq hp hc
      · rw [List.mem_singleton.mp hc]
        exact ⟨hlt, m, getElem?_hang_last hlt, hparent⟩
    · rw [hchildren] at hc
      cases hc
  · intro j x hj hroot
    obtain ⟨hj, -⟩ | ⟨rfl, rfl⟩ | ⟨rfl, rfl⟩ := getElem?_hang_cases hp hj
    · exact linked.up_hang hp hq hj hroot
    · rw [q.parent_list]
      exact linked.up_hang hp hq hp hroot
    · exact ⟨p, _, hparent, getElem?_hang_self hp, by rw [hlist]; simp⟩
  · intro j x hj
    obtain ⟨hj, -⟩ | ⟨rfl, rfl⟩ | ⟨rfl, rfl⟩ := getElem?_hang_cases hp hj
    · exact linked.nodup hj
    · -- The new position lies behind all that is listed so far.
      have hnew : a.length ∉ q.children := fun hmem =>
        Nat.lt_irrefl _ (linked.child_lt hp hmem).2
      rw [hlist, ← List.concat_eq_append]
      exact (linked.nodup hp).concat hnew
    · rw [hchildren]
      exact List.nodup_nil

end

/-! ## Two leaves for one -/

/-- The node as a directory of the positions. -/
def asDirectory (id : Nat) (children : List Nat) (n : Node) : Node :=
  { n with id, items := .directory children }

/-- The node at a position made a directory of two nodes at the end. -/
def graft (a : Arena) (i id : Nat) (first second : Node) : Arena :=
  a.modify i (asDirectory id [a.length, a.length + 1]) ++ [first, second]

section

variable {a : Arena} {i id : Nat} {n first second : Node}

theorem getElem?_graft_of_ne {j : Nat} {m : Node} (hj : a[j]? = some m) (hne : j ≠ i) :
    (graft a i id first second)[j]? = some m := by
  have hlt : j < a.length := (List.getElem?_eq_some_iff.mp hj).1
  rw [graft, List.getElem?_append_left (by simpa using hlt), List.getElem?_modify, hj]
  simp [Ne.symm hne]

theorem getElem?_graft_self (hi : a[i]? = some n) :
    (graft a i id first second)[i]? = some (asDirectory id [a.length, a.length + 1] n) := by
  have hlt : i < a.length := (List.getElem?_eq_some_iff.mp hi).1
  rw [graft, List.getElem?_append_left (by simpa using hlt), List.getElem?_modify, hi]
  simp

theorem getElem?_graft_first : (graft a i id first second)[a.length]? = some first := by
  simp [graft]

theorem getElem?_graft_second : (graft a i id first second)[a.length + 1]? = some second := by
  simp [graft]

theorem length_graft : (graft a i id first second).length = a.length + 2 := by
  simp [graft]

theorem getElem?_graft_cases (hi : a[i]? = some n) {j : Nat} {m : Node}
    (hj : (graft a i id first second)[j]? = some m) :
    (a[j]? = some m ∧ j ≠ i) ∨ (j = i ∧ m = asDirectory id [a.length, a.length + 1] n) ∨
      (j = a.length ∧ m = first) ∨ (j = a.length + 1 ∧ m = second) := by
  by_cases hji : j = i
  · subst hji
    rw [getElem?_graft_self hi] at hj
    exact .inr (.inl ⟨rfl, (Option.some.inj hj).symm⟩)
  · obtain hlt | rfl | rfl | hgt : j < a.length ∨ j = a.length ∨ j = a.length + 1 ∨
        a.length + 2 ≤ j := by omega
    · rw [getElem?_graft_of_ne (List.getElem?_eq_getElem hlt) hji] at hj
      exact .inl ⟨(List.getElem?_eq_getElem hlt).trans hj, hji⟩
    · rw [getElem?_graft_first] at hj
      exact .inr (.inr (.inl ⟨rfl, (Option.some.inj hj).symm⟩))
    · rw [getElem?_graft_second] at hj
      exact .inr (.inr (.inr ⟨rfl, (Option.some.inj hj).symm⟩))
    · rw [List.getElem?_eq_none (by rwa [length_graft])] at hj
      cases hj

theorem graft_eq_hang (hi : a[i]? = some n) :
    graft a i id first second =
      (hang (a.modify i (asDirectory id [])) i first).hang i second := by
  have hlt : i < (a.modify i (asDirectory id [])).length := by
    simpa using (List.getElem?_eq_some_iff.mp hi).1
  have hlt' : i < (hang (a.modify i (asDirectory id [])) i first).length := by
    rw [length_hang]
    omega
  rw [hang_eq hlt', hang_eq hlt, modify_append_of_lt (by simpa using hlt), List.modify_modify_eq,
    List.modify_modify_eq, graft, List.append_assoc]
  simp only [List.length_append, List.length_modify, List.length_singleton]
  rfl

theorem Linked.graft (linked : Linked a) (hi : a[i]? = some n) (hleaf : n.children = [])
    (hfirst : first.parent = some i ∧ first.children = [])
    (hsecond : second.parent = some i ∧ second.children = []) (id : Nat) :
    Linked (graft a i id first second) := by
  have hlinks : a.map Node.links = (a.modify i (asDirectory id [])).map Node.links := by
    refine (map_modify_of_eq fun m hm => ?_).symm
    rw [hi] at hm
    cases hm
    rw [Node.links, Node.links, hleaf]
    rfl
  have hself : (a.modify i (asDirectory id []))[i]? = some (asDirectory id [] n) := by
    rw [List.getElem?_modify, hi]
    simp
  have hone := (linked.of_links hlinks).hang hself rfl hfirst.1 hfirst.2
  rw [graft_eq_hang hi]
  exact hone.hang (getElem?_hang_self hself) (Node.items_list rfl _) hsecond.1 hsecond.2

end

/-- The entries of a list at the positions. -/
def pick (entries : List Entry) (positions : List Nat) : List Entry :=
  positions.filterMap (entries[·]?)

theorem divide_eq (a : Arena) (max nextId i : Nat) (entries : List Entry) :
    a.divide max nextId i entries =
      Arena.refit (graft a i (nextId + 2)
        (Node.leafOf nextId (some i)
          (pick entries (quadraticSplit (entries.map Entry.box) max).1))
        (Node.leafOf (nextId + 1) (some i)
          (pick entries (quadraticSplit (entries.map Entry.box) max).2))) i := rfl

theorem Linked.divide {a : Arena} (linked : Linked a) {i : Nat} {n : Node} (hi : a[i]? = some n)
    (hleaf : n.children = []) (max nextId : Nat) (entries : List Entry) :
    Linked (a.divide max nextId i entries) := by
  rw [divide_eq]
  exact (sameShape_refit _ _).linked (linked.graft hi hleaf ⟨rfl, rfl⟩ ⟨rfl, rfl⟩ _)

end Arena

end RTree

end SpatialSegment
