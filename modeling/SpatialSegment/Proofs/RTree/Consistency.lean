import SpatialSegment.Proofs.Checked.Insertion
import SpatialSegment.Proofs.RTree.Unions

/-!
# The shape of an index

A sound index passes its own check, and more: its positions form one tree below the root, in which
they grow downwards, and its numbers are distinct.
-/

namespace SpatialSegment

namespace RTree

namespace Arena

section

variable {a : Arena} {max : Nat}

theorem verify_cons {i : Nat} {n : Node} (hi : a[i]? = some n) (hsize : n.size ≤ max)
    (hleast : isLeastAround n.box (a.itemBoxes n) = true)
    (hback : ∀ c ∈ n.children, a.parentAt c = some i) (visited : Nat) (stack : List Nat) :
    a.verify max visited (i :: stack) =
      a.verify max (visited + 1) (n.children.reverse ++ stack) := by
  have hlinks : (n.children.all fun c => a.parentAt c == some i) = true := by
    simpa using hback
  rw [verify]
  simp [hi, Nat.not_lt.mpr hsize, hleast, hlinks]

/-- If nothing is wrong at any position, all that counts is how many positions are visited. -/
theorem verify_eq (linked : Linked a)
    (bounded : ∀ {i : Nat} {n : Node}, a[i]? = some n → n.size ≤ max)
    (least : ∀ {i : Nat} {n : Node}, a[i]? = some n →
      isLeastAround n.box (a.itemBoxes n) = true)
    {stack order : List Nat} (h : a.visits stack = some order) (visited : Nat) :
    a.verify max visited stack =
      some (visited + order.length == a.length && (a.parentAt rootPosition).isNone) := by
  refine visits_induction (P := fun stack order => ∀ visited, a.verify max visited stack =
    some (visited + order.length == a.length && (a.parentAt rootPosition).isNone)) ?_ ?_ h visited
  · intro visited
    rw [verify]
    rfl
  · intro i n stack order hi _ ih visited
    rw [verify_cons hi (bounded hi) (least hi), ih, List.length_cons, Nat.add_assoc,
      Nat.add_comm 1]
    intro c hc
    obtain ⟨-, m, hm, hparent⟩ := linked.down hi c hc
    rw [parentAt_eq hm, hparent]

end

end Arena

section

variable {t : RTree}

theorem WellFormed.covering (wf : WellFormed t) {i : Nat} {n : Node}
    (hi : t.nodes[i]? = some n) :
    ∃ least, Box.covering (t.nodes.itemBoxes n) = .ok least ∧ least.sameNumbers n.box = true := by
  obtain hempty | ⟨d, covered⟩ := wf.boxes
  · have hmem := List.mem_of_getElem? hi
    rw [hempty] at hmem
    cases List.mem_singleton.mp hmem
    exact ⟨Box.fullSpace, rfl, rfl⟩
  · have hdims := covered.filled.dimension_itemBoxes hi fun c hc =>
      (covered.tight c (wf.linked.child_lt hi hc).2).dimension_boxAt
    refine ⟨_, Box.covering_eq_unionAll hdims, (Box.sameNumbers_iff _ _).mpr ?_⟩
    exact ((covered.tight i (List.getElem?_eq_some_iff.mp hi).1).node hi).2

theorem Sound.isConsistent (sound : Sound t) : t.isConsistent = true := by
  obtain ⟨order, horder, hperm⟩ := sound.linked.visits_root
  obtain ⟨r, hr, hnone⟩ := sound.linked.root
  have hlength : order.length = t.nodes.length := by simpa using hperm.length_eq
  have hverify := Arena.verify_eq sound.linked sound.bounded (fun {i n} hi => by
    obtain ⟨least, hcovering, hsame⟩ := sound.covering hi
    rw [isLeastAround, hcovering]
    exact hsame) horder 0
  rw [RTree.isConsistent, hverify, Arena.parentAt_eq hr, hnone]
  simp [hlength]

end

/-- The shape that an index has to have. -/
structure Consistent (t : RTree) : Prop where
  checked : t.isConsistent = true
  covering : ∀ {i : Nat} {n : Node}, t.nodes[i]? = some n →
    ∃ least, Box.covering (t.nodes.itemBoxes n) = .ok least ∧ least.sameNumbers n.box = true
  bounded : ∀ {i : Nat} {n : Node}, t.nodes[i]? = some n → n.size ≤ t.maxNodeSize
  children : ∀ {i : Nat} {n : Node}, t.nodes[i]? = some n → ∀ c ∈ n.children,
    i < c ∧ c < t.nodes.length ∧ t.nodes.parentAt c = some i
  root : ∃ n : Node, t.nodes[rootPosition]? = some n ∧ n.parent = none
  once : ∃ order, t.nodes.visits [rootPosition] = some order ∧
    order.Perm (List.range t.nodes.length)
  distinct : (t.nodes.map Node.id).Nodup
  below : ∀ {i : Nat} {n : Node}, t.nodes[i]? = some n → n.id < t.nextId
  few : t.nextId ≤ 3 * t.length + 1

theorem Sound.consistent {t : RTree} (sound : Sound t) : Consistent t where
  checked := sound.isConsistent
  covering := sound.covering
  bounded := sound.bounded
  children hi c hc := by
    obtain ⟨hlt, m, hm, hparent⟩ := sound.linked.down hi c hc
    exact ⟨hlt, (List.getElem?_eq_some_iff.mp hm).1, (Arena.parentAt_eq hm).trans hparent⟩
  root := sound.linked.root
  once := sound.linked.visits_root
  distinct := sound.distinct
  below hi := sound.below _ (List.mem_map_of_mem (List.mem_of_getElem? hi))
  few := sound.few

/-- Insertion of entries one after another never joins boxes of different dimensions, and the index
it leads to has the shape it has to have. As long as four bytes hold the numbers, the machine comes
to the same index. -/
theorem consistent_after_inserts (maxNodeSize : Nat) (two_le : 2 ≤ maxNodeSize)
    (entries : List Entry) :
    Consistent (entries.foldl RTree.insert (empty maxNodeSize two_le)) ∧
      entries.foldlM insertChecked (empty maxNodeSize two_le) =
        pure (entries.foldl RTree.insert (empty maxNodeSize two_le)) ∧
      (3 * entries.length + 1 < Word.limit 4 → ∃ all,
        (empty maxNodeSize two_le).checkedInsertAll true entries =
          pure (entries.foldl RTree.insert (empty maxNodeSize two_le), all)) := by
  have hempty := sound_empty maxNodeSize two_le
  refine ⟨(hempty.foldl_insert entries).1.consistent, ?_, exists_checkedInsertAll_empty two_le⟩
  generalize empty maxNodeSize two_le = t at hempty ⊢
  induction entries generalizing t with
  | nil => rfl
  | cons e entries ih =>
    rw [List.foldlM_cons, hempty.insertChecked_eq, pure_bind]
    exact ih _ (hempty.insert e).1

/-- Three entries are one more than a leaf of this index may list. -/
theorem consistent_after_three :
    let point (bits : UInt64) (h : (⟨bits⟩ : Coord) ≤ ⟨bits⟩) : Box := ⟨[⟨⟨bits⟩, ⟨bits⟩, h⟩]⟩
    let entries : List Entry := [⟨point 0 (by decide), 0⟩,
      ⟨point 0x3ff0000000000000 (by decide), 10⟩, ⟨point 0x4000000000000000 (by decide), 20⟩]
    let t := entries.foldl RTree.insert (empty 2 (by decide))
    t.isConsistent = true ∧
      ∃ all, (empty 2 (by decide)).checkedInsertAll true entries = pure (t, all) := by
  intro point entries t
  obtain ⟨consistent, -, hmachine⟩ := consistent_after_inserts 2 (by decide) entries
  exact ⟨consistent.checked, hmachine (by decide)⟩

end RTree

end SpatialSegment
