import SpatialSegment.Proofs.Checked.Insertion
import SpatialSegment.Proofs.RTree.Fill

/-!
# How many nodes an index has and how full they are

A directory comes from a leaf that was divided and lists the two halves ever after, and a leaf only
grows until it is divided in its turn. So directories are pairs, and every leaf that came from a
division is at least half full. Every node but the root is listed once, which ties the number of
leaves, and with it the numbers that have been given out, to the number of directories.
-/

namespace SpatialSegment

namespace RTree

def Node.isLeaf (n : Node) : Bool :=
  match n.items with
  | .leaf _ => true
  | .directory _ => false

def leaves (t : RTree) : List Node := t.nodes.filter Node.isLeaf

def directories (t : RTree) : List Node := t.nodes.filter fun n => !n.isLeaf

theorem Node.isLeaf_iff {n : Node} : n.isLeaf = true ↔ n.items = .leaf n.entries := by
  unfold isLeaf entries
  cases n.items <;> simp

theorem Node.not_isLeaf_iff {n : Node} : n.isLeaf = false ↔ n.items = .directory n.children := by
  unfold isLeaf children
  cases n.items <;> simp

namespace Arena

/-- Directories list two nodes, and leaves that some node lists have at least `fill` entries. -/
structure Stocked (a : Arena) (fill : Nat) : Prop where
  pairs : ∀ {i : Nat} {n : Node} {cs : List Nat}, a[i]? = some n → n.items = .directory cs →
    cs.length = 2
  fill_le : ∀ {i : Nat} {n : Node} {es : List Entry}, a[i]? = some n → i ≠ rootPosition →
    n.items = .leaf es → fill ≤ es.length

variable {a b : Arena} {i fill : Nat} {n : Node} {es : List Entry}

/-! ## What insertion keeps -/

theorem SameShape.stocked (h : SameShape a b) (stocked : Stocked a fill) : Stocked b fill := by
  constructor
  · intro i n cs hi hn
    obtain ⟨box, hm⟩ := h.symm.get hi
    exact stocked.pairs hm hn
  · intro i n es hi hroot hn
    obtain ⟨box, hm⟩ := h.symm.get hi
    exact stocked.fill_le hm hroot hn

/-- Only boxes change on the way up. -/
theorem Linked.sameShape_refitUp (linked : Linked a) (h : a.refitUp i = some b) :
    SameShape a b := by
  induction i using Nat.strongRecOn generalizing a with
  | ind i ih =>
    have hshape := sameShape_refit a i
    cases hn : a[i]? with
    | none =>
      rw [refitUp] at h
      simp [hn] at h
    | some n =>
      cases hparent : n.parent with
      | none =>
        rw [refitUp_of_root hn hparent] at h
        cases h
        exact hshape
      | some p =>
        obtain ⟨hp, -⟩ := linked.exists_parent hn hparent
        rw [refitUp_of_parent hn hparent] at h
        exact hshape.trans (ih p hp (hshape.linked linked) h)

theorem Stocked.push (stocked : Stocked a fill) (hi : a[i]? = some n) (hn : n.items = .leaf es)
    (e : Entry) : Stocked (a.modify i (·.push e)) fill := by
  constructor
  · intro j m cs hj hm
    rcases getElem?_push hi hn hj with ⟨-, hold⟩ | ⟨-, rfl⟩
    · exact stocked.pairs hold hm
    · cases hm
  · intro j m es' hj hroot hm
    rcases getElem?_push hi hn hj with ⟨-, hold⟩ | ⟨rfl, rfl⟩
    · exact stocked.fill_le hold hroot hm
    · cases hm
      have hle := stocked.fill_le hi hroot hn
      rw [List.length_append]
      omega

theorem length_pick {positions : List Nat} (inside : ∀ k ∈ positions, k < es.length) :
    (pick es positions).length = positions.length := by
  induction positions with
  | nil => rfl
  | cons k positions ih =>
    obtain ⟨hk, inside⟩ := List.forall_mem_cons.mp inside
    have he : es[k]? = some es[k] := List.getElem?_eq_getElem hk
    rw [pick, List.filterMap_cons_some he, List.length_cons, List.length_cons]
    exact congrArg (· + 1) (ih inside)

/-- Both halves of a leaf with one entry too many have the minimum. -/
theorem minFill_le_pick {max : Nat} (two_le : 2 ≤ max) (overfull : es.length = max + 1) :
    max / 2 ≤ (pick es (quadraticSplit (es.map Entry.box) max).1).length ∧
      max / 2 ≤ (pick es (quadraticSplit (es.map Entry.box) max).2).length := by
  have hboxes : (es.map Entry.box).length = es.length := List.length_map _
  have htwo : 2 ≤ (es.map Entry.box).length := by omega
  obtain ⟨hperm, -, -⟩ := quadraticSplit_perm htwo max
  have inside : ∀ k ∈ (quadraticSplit (es.map Entry.box) max).1 ++
      (quadraticSplit (es.map Entry.box) max).2, k < es.length := by
    intro k hk
    have hmem := List.mem_range.mp (hperm.subset hk)
    omega
  obtain ⟨hfirst, hsecond⟩ := List.forall_mem_append.mp inside
  rw [length_pick hfirst, length_pick hsecond]
  exact minFill_le_quadraticSplit two_le (by omega)

theorem Stocked.divide {max : Nat} (stocked : Stocked a (max / 2)) (hi : a[i]? = some n)
    (two_le : 2 ≤ max) (overfull : es.length = max + 1) (nextId : Nat) :
    Stocked (a.divide max nextId i es) (max / 2) := by
  obtain ⟨hfirst, hsecond⟩ := minFill_le_pick two_le overfull
  rw [divide_eq]
  apply (sameShape_refit _ _).stocked
  constructor
  · intro j m cs hj hm
    rcases getElem?_graft_cases hi hj with ⟨hold, -⟩ | ⟨-, rfl⟩ | ⟨-, rfl⟩ | ⟨-, rfl⟩
    · exact stocked.pairs hold hm
    · cases hm
      rfl
    · cases hm
    · cases hm
  · intro j m es' hj hroot hm
    rcases getElem?_graft_cases hi hj with ⟨hold, -⟩ | ⟨-, rfl⟩ | ⟨-, rfl⟩ | ⟨-, rfl⟩
    · exact stocked.fill_le hold hroot hm
    · cases hm
    · cases hm
      exact hfirst
    · cases hm
      exact hsecond

/-! ## What the links say of numbers -/

/-- Every node but the root is listed once. -/
theorem Linked.length_eq (linked : Linked a) : a.length = 1 + (a.flatMap Node.children).length := by
  obtain ⟨order, hvisits, hall⟩ := linked.visits_root
  have hlisted := (visits_perm hvisits).length_eq
  have hchildren := (flatMap_perm hall (f := Node.children) childrenAt_eq).length_eq
  have hcount := hall.length_eq
  rw [List.length_append, List.length_singleton] at hlisted
  rw [List.length_range] at hcount
  omega

/-- The root lists something where there is more than the root. -/
theorem Linked.root_not_leaf (linked : Linked a) (more : 1 < a.length)
    (hroot : a[rootPosition]? = some n) : n.isLeaf = false := by
  obtain ⟨p, q, -, hp, hmem⟩ := linked.up (List.getElem?_eq_getElem more) Nat.one_ne_zero
  have hlt := (linked.child_lt hp hmem).1
  obtain rfl : p = rootPosition := by
    rw [rootPosition]
    omega
  rw [hroot] at hp
  cases hp
  rw [Node.not_isLeaf_iff]
  unfold Node.children at hmem ⊢
  cases hitems : n.items with
  | leaf es => simp [hitems] at hmem
  | directory cs => rfl

end Arena

section

variable {t : RTree}

theorem length_leaves_add_directories (t : RTree) :
    t.leaves.length + t.directories.length = t.nodes.length :=
  (List.length_eq_length_filter_add Node.isLeaf).symm

theorem Arena.Stocked.length_children {fill : Nat} (stocked : Arena.Stocked t.nodes fill) :
    (t.nodes.flatMap Node.children).length = 2 * t.directories.length := by
  have hleaf : ∀ n ∈ t.nodes, (!n.isLeaf) = false → n.children = [] := by
    intro n _ hn
    rw [Bool.not_eq_false', Node.isLeaf_iff] at hn
    rw [Node.children, hn]
  have hpair : ∀ n ∈ t.directories, n.children.length = 2 := by
    intro n hn
    obtain ⟨hmem, hn⟩ := List.mem_filter.mp hn
    obtain ⟨i, hi⟩ := List.mem_iff_getElem?.mp hmem
    rw [Bool.not_eq_true', Node.not_isLeaf_iff] at hn
    exact stocked.pairs hi hn
  rw [← flatMap_filter hleaf]
  apply Nat.le_antisymm
  · exact length_flatMap_le fun n hn => (hpair n hn).le
  · exact le_length_flatMap fun n hn => (hpair n hn).ge

theorem length_leaves (linked : Arena.Linked t.nodes) {fill : Nat}
    (stocked : Arena.Stocked t.nodes fill) : t.leaves.length = t.directories.length + 1 := by
  have hnodes := length_leaves_add_directories t
  have hlinks := linked.length_eq
  have hchildren := stocked.length_children
  omega

/-- With more leaves than one, every leaf has its share of the entries. -/
theorem fill_mul_le (linked : Arena.Linked t.nodes) {fill : Nat}
    (stocked : Arena.Stocked t.nodes fill) (more : 1 < t.leaves.length) :
    fill * t.leaves.length ≤ t.entries.length := by
  have hnodes := length_leaves_add_directories t
  have hdirectory : ∀ n ∈ t.nodes, n.isLeaf = false → n.entries = [] := by
    intro n _ hn
    rw [Node.not_isLeaf_iff] at hn
    rw [Node.entries, hn]
  rw [entries, ← flatMap_filter hdirectory]
  apply le_length_flatMap
  intro n hn
  obtain ⟨hmem, hleaf⟩ := List.mem_filter.mp hn
  obtain ⟨i, hi⟩ := List.mem_iff_getElem?.mp hmem
  refine stocked.fill_le hi ?_ (Node.isLeaf_iff.mp hleaf)
  rintro rfl
  have hroot := linked.root_not_leaf (by omega) hi
  rw [hleaf] at hroot
  cases hroot

/-! ## Insertion -/

theorem stocked_empty (maxNodeSize : Nat) (two_le : 2 ≤ maxNodeSize) (fill : Nat) :
    Arena.Stocked (empty maxNodeSize two_le).nodes fill := by
  constructor
  · intro i n cs hi hn
    obtain ⟨-, rfl⟩ := eq_of_getElem?_singleton hi
    cases hn
  · intro i n es hi hroot _
    exact absurd (eq_of_getElem?_singleton hi).1 hroot

/-- An entry that is taken leaves directories pairs and leaves half full. -/
theorem Sound.stocked_insert (sound : Sound t)
    (stocked : Arena.Stocked t.nodes (t.maxNodeSize / 2)) (e : Entry) :
    Arena.Stocked (t.insert e).nodes (t.maxNodeSize / 2) := by
  cases haccepts : t.accepts e with
  | false => rwa [insert_of_not_accepts haccepts]
  | true =>
    obtain ⟨i, b, grown⟩ := sound.exists_grown haccepts
    obtain ⟨n, es, hi, hn⟩ := grown.leaf
    obtain ⟨m, fuller, hb, hm, hlength⟩ := grown.grown
    have hpush := stocked.push hi hn e
    have hshape := (sound.linked.push hi hn e).sameShape_refitUp grown.refitUp
    have hplace := place_eq_insert sound haccepts
    simp only [place, grown.descend, grown.refitUp, Option.bind_eq_bind, Option.bind_some,
      Option.pure_def, Option.some.injEq] at hplace
    rw [← hplace, settle_of_leaf hb hm]
    split
    · exact hshape.stocked hpush
    · rename_i hlong
      dsimp only at hlong
      exact (hshape.stocked hpush).divide hb t.two_le (by omega) t.nextId

theorem Sound.stocked_foldl_insert (sound : Sound t)
    (stocked : Arena.Stocked t.nodes (t.maxNodeSize / 2)) (entries : List Entry) :
    Arena.Stocked (entries.foldl RTree.insert t).nodes (t.maxNodeSize / 2) := by
  induction entries generalizing t with
  | nil => exact stocked
  | cons e entries ih =>
    have hsize := maxNodeSize_insert t e
    have hnext := sound.stocked_insert stocked e
    rw [← hsize] at hnext ⊢
    exact ih (sound.insert e).1 hnext

end

/-- After insertion of entries one after another directories list two nodes each, and leaves are at
least half full but for one that is the root. There is one leaf more than there are directories, and
three numbers have been given out for each directory. As long as four bytes hold the numbers, the
machine comes to the same index. -/
theorem occupancy_after_inserts (maxNodeSize : Nat) (two_le : 2 ≤ maxNodeSize)
    (entries : List Entry) :
    let t := entries.foldl RTree.insert (empty maxNodeSize two_le)
    (∀ n ∈ t.directories, n.children.length = 2) ∧
      (∀ (i : Nat) (n : Node), t.nodes[i]? = some n → n.isLeaf = true →
        n.entries.length ≤ maxNodeSize ∧
          (i ≠ rootPosition → maxNodeSize / 2 ≤ n.entries.length)) ∧
      t.leaves.length = t.directories.length + 1 ∧
      t.nextId = 1 + 3 * t.directories.length ∧
      (1 < t.leaves.length → t.leaves.length * (maxNodeSize / 2) ≤ t.length) ∧
      (3 * entries.length + 1 < Word.limit 4 → ∃ all,
        (empty maxNodeSize two_le).checkedInsertAll true entries = pure (t, all)) := by
  intro t
  have hempty := sound_empty maxNodeSize two_le
  have sound : Sound t := (hempty.foldl_insert entries).1
  have stocked : Arena.Stocked t.nodes (maxNodeSize / 2) :=
    hempty.stocked_foldl_insert (stocked_empty maxNodeSize two_le _) entries
  have hsize : t.maxNodeSize = maxNodeSize := maxNodeSize_foldl_insert _ entries
  have hleaves := length_leaves sound.linked stocked
  refine ⟨?_, ?_, hleaves, ?_, ?_, ?_⟩
  · intro n hn
    obtain ⟨hmem, hn⟩ := List.mem_filter.mp hn
    obtain ⟨i, hi⟩ := List.mem_iff_getElem?.mp hmem
    rw [Bool.not_eq_true', Node.not_isLeaf_iff] at hn
    exact stocked.pairs hi hn
  · intro i n hi hn
    rw [Node.isLeaf_iff] at hn
    have hbound := sound.bounded hi
    rw [Node.size, hn, hsize] at hbound
    exact ⟨hbound, fun hroot => stocked.fill_le hi hroot hn⟩
  · have hnumbers := sound.numbers
    have hnodes := length_leaves_add_directories t
    omega
  · intro more
    rw [sound.counted, Nat.mul_comm]
    exact fill_mul_le sound.linked stocked more
  · exact exists_checkedInsertAll_empty two_le

/-- Three points are one more than a leaf of this index may list. -/
theorem occupancy_after_three :
    let point (bits : UInt64) (h : (⟨bits⟩ : Coord) ≤ ⟨bits⟩) : Box := ⟨[⟨⟨bits⟩, ⟨bits⟩, h⟩]⟩
    let entries : List Entry := [⟨point 0 (by decide), 0⟩,
      ⟨point 0x3ff0000000000000 (by decide), 10⟩, ⟨point 0x4000000000000000 (by decide), 20⟩]
    let t := entries.foldl RTree.insert (empty 2 (by decide))
    t.leaves.length = t.directories.length + 1 ∧
      ∃ all, (empty 2 (by decide)).checkedInsertAll true entries = pure (t, all) := by
  intro point entries t
  obtain ⟨-, -, hleaves, -, -, hmachine⟩ := occupancy_after_inserts 2 (by decide) entries
  exact ⟨hleaves, hmachine (by decide)⟩

end RTree

end SpatialSegment
