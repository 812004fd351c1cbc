import SpatialSegment.Proofs.Box.Bounds
import SpatialSegment.Proofs.RTree.Partition
import SpatialSegment.Proofs.RTree.Shape

/-!
# The boxes of an arena after insertion

A position is tight if its box is, as numbers, the one around what its node lists. A change at one
position spoils tightness there and nowhere else, because the parent still sees the old box.
Computing that box anew moves the trouble one step up, and at the root it is gone.
-/

namespace SpatialSegment

namespace RTree

namespace Arena

/-- Every node lists something, and the entries are of one dimension. -/
structure Filled (a : Arena) (d : Nat) : Prop where
  nonempty : ∀ {i : Nat} {n : Node}, a[i]? = some n → n.size ≠ 0
  entries : ∀ {i : Nat} {n : Node}, a[i]? = some n → ∀ e ∈ n.entries, e.box.dimension = d

def TightAt (a : Arena) (d i : Nat) : Prop :=
  ∃ n, a[i]? = some n ∧ n.box.dimension = d ∧
    (Box.unionAll (a.itemBoxes n)).bounds = n.box.bounds

/-- All is as it is once there are entries, which are of `d` dimensions. -/
structure Covered (a : Arena) (d : Nat) : Prop where
  pos : 0 < d
  filled : Filled a d
  tight : ∀ i < a.length, a.TightAt d i

section

variable {a b : Arena} {d i j : Nat} {n m : Node}

theorem boxAt_eq (h : a[i]? = some n) : a.boxAt i = n.box := by
  simp [boxAt, h]

theorem parentAt_eq (h : a[i]? = some n) : a.parentAt i = n.parent := by
  simp [parentAt, h]

theorem length_itemBoxes (a : Arena) (n : Node) : (a.itemBoxes n).length = n.size := by
  unfold itemBoxes Node.size
  cases n.items <;> simp

/-- The boxes of what a node lists depend on those of its children only. -/
theorem itemBoxes_congr {α : Type} {f : Box → α} (hitems : m.items = n.items)
    (h : ∀ c ∈ n.children, f (b.boxAt c) = f (a.boxAt c)) :
    (b.itemBoxes m).map f = (a.itemBoxes n).map f := by
  unfold itemBoxes
  unfold Node.children at h
  rw [hitems]
  cases hn : n.items with
  | leaf es => rfl
  | directory cs =>
    simp only [hn] at h
    simpa using h

theorem TightAt.node (h : a.TightAt d i) (hi : a[i]? = some n) :
    n.box.dimension = d ∧ (Box.unionAll (a.itemBoxes n)).bounds = n.box.bounds := by
  obtain ⟨m, hm, hd, hbounds⟩ := h
  rw [hi] at hm
  cases hm
  exact ⟨hd, hbounds⟩

theorem TightAt.dimension_boxAt (h : a.TightAt d i) : (a.boxAt i).dimension = d := by
  obtain ⟨n, hn, hd, -⟩ := h
  rwa [boxAt_eq hn]

theorem TightAt.congr (h : a.TightAt d i) (ha : a[i]? = some n) (hb : b[j]? = some m)
    (hbox : m.box = n.box) (hitems : m.items = n.items)
    (hchildren : ∀ c ∈ n.children, (b.boxAt c).bounds = (a.boxAt c).bounds) :
    b.TightAt d j := by
  obtain ⟨hd, hbounds⟩ := h.node ha
  refine ⟨m, hb, by rwa [hbox], ?_⟩
  rw [hbox, ← hbounds]
  exact Box.unionAll_congr (itemBoxes_congr hitems hchildren)

theorem SameShape.filled (h : SameShape a b) (filled : Filled a d) : Filled b d := by
  constructor
  · intro i n hn
    obtain ⟨box, hm⟩ := h.symm.get hn
    exact filled.nonempty (n := { n with box }) hm
  · intro i n hn
    obtain ⟨box, hm⟩ := h.symm.get hn
    exact filled.entries (n := { n with box }) hm

theorem Filled.itemBoxes_ne_nil (filled : Filled a d) (hi : a[i]? = some n) :
    a.itemBoxes n ≠ [] := by
  intro h
  have hlength := length_itemBoxes a n
  rw [h] at hlength
  exact filled.nonempty hi hlength.symm

theorem Filled.dimension_itemBoxes (filled : Filled a d) (hi : a[i]? = some n)
    (hchildren : ∀ c ∈ n.children, (a.boxAt c).dimension = d) :
    ∀ box ∈ a.itemBoxes n, box.dimension = d := by
  have hentries := filled.entries hi
  unfold Node.entries at hentries
  unfold Node.children at hchildren
  unfold itemBoxes
  cases hn : n.items with
  | leaf es =>
    simp only [hn] at hentries
    simpa using hentries
  | directory cs =>
    simp only [hn] at hchildren
    simpa using hchildren

/-! ## One box computed anew -/

theorem getElem?_refit_self (hi : a[i]? = some n) :
    (Arena.refit a i)[i]? = some { n with box := Box.unionAll (a.itemBoxes n) } := by
  rw [getElem?_refit, if_pos rfl, hi]
  rfl

theorem getElem?_refit_of_ne (h : j ≠ i) : (Arena.refit a i)[j]? = a[j]? := by
  rw [getElem?_refit, if_neg (Ne.symm h)]

theorem boxAt_refit_of_ne (h : j ≠ i) : (Arena.refit a i).boxAt j = a.boxAt j := by
  rw [boxAt, getElem?_refit_of_ne h]
  rfl

theorem tightAt_refit_self (linked : Linked a) (filled : Filled a d) (hi : a[i]? = some n)
    (hchildren : ∀ c ∈ n.children, (a.boxAt c).dimension = d) :
    (Arena.refit a i).TightAt d i := by
  have hdims := filled.dimension_itemBoxes hi hchildren
  refine ⟨_, getElem?_refit_self hi, Box.dimension_unionAll hdims (filled.itemBoxes_ne_nil hi), ?_⟩
  refine Box.unionAll_congr (itemBoxes_congr rfl fun c hc => ?_)
  have hlt := (linked.child_lt hi hc).1
  rw [boxAt_refit_of_ne (by omega)]

theorem TightAt.refit_of_ne (h : a.TightAt d j) (hj : a[j]? = some n) (hne : j ≠ i)
    (hsame : i ∈ n.children → ((Arena.refit a i).boxAt i).bounds = (a.boxAt i).bounds) :
    (Arena.refit a i).TightAt d j := by
  refine h.congr hj ((getElem?_refit_of_ne hne).trans hj) rfl rfl fun c hc => ?_
  by_cases hci : c = i
  · subst hci
    exact hsame hc
  · rw [boxAt_refit_of_ne hci]

/-! ## The boxes up to the root computed anew -/

theorem refitUp_of_root (hi : a[i]? = some n) (hroot : n.parent = none) :
    a.refitUp i = some (Arena.refit a i) := by
  rw [refitUp]
  simp only [hi, hroot]

theorem refitUp_of_parent {p : Nat} (hi : a[i]? = some n) (hp : n.parent = some p) :
    a.refitUp i = (Arena.refit a i).refitUp p := by
  rw [refitUp]
  simp only [hi, hp]

/-- If all positions but one are tight, computing the boxes from that one up makes all tight. -/
theorem exists_refitUp (linked : Linked a) (filled : Filled a d) (hi : i < a.length)
    (tight : ∀ j < a.length, j ≠ i → a.TightAt d j) :
    ∃ b, a.refitUp i = some b ∧ SameShape a b ∧ ∀ j < b.length, b.TightAt d j := by
  induction i using Nat.strongRecOn generalizing a with
  | ind i ih =>
    have hn : a[i]? = some a[i] := List.getElem?_eq_getElem hi
    have hshape := sameShape_refit a i
    have hlength := hshape.length_eq
    have hself : (Arena.refit a i).TightAt d i := by
      refine tightAt_refit_self linked filled hn fun c hc => ?_
      obtain ⟨hlt, hin⟩ := linked.child_lt hn hc
      exact (tight c hin (by omega)).dimension_boxAt
    by_cases hroot : i = rootPosition
    · obtain ⟨r, hr, hnone⟩ := linked.root
      rw [← hroot, hn] at hr
      cases hr
      refine ⟨Arena.refit a i, refitUp_of_root hn hnone, hshape, fun j hj => ?_⟩
      by_cases hji : j = i
      · exact hji ▸ hself
      · have hj' : j < a.length := by omega
        refine (tight j hj' hji).refit_of_ne (List.getElem?_eq_getElem hj') hji fun hmem => ?_
        have hlt := (linked.child_lt (List.getElem?_eq_getElem hj') hmem).1
        exact absurd hlt (hroot ▸ Nat.not_lt_zero j)
    · obtain ⟨p, q, hparent, hq, hmem⟩ := linked.up hn hroot
      have hpi := (linked.child_lt hq hmem).1
      obtain ⟨b, hb, hab, hbtight⟩ := ih p hpi (hshape.linked linked) (hshape.filled filled)
        (by omega) fun j hj hjp => by
          by_cases hji : j = i
          · exact hji ▸ hself
          · have hj' : j < a.length := by omega
            refine (tight j hj' hji).refit_of_ne (List.getElem?_eq_getElem hj') hji fun hmem' => ?_
            exact absurd (linked.parent_unique (List.getElem?_eq_getElem hj') hq hmem' hmem) hjp
      exact ⟨b, (refitUp_of_parent hn hparent).trans hb, hshape.trans hab, hbtight⟩

end

/-! ## A leaf divided -/

section

variable {a : Arena} {d i j id : Nat} {n first second : Node} {es : List Entry}

/-- The leaves of a division share the entries out, and each gets one. -/
theorem pick_quadraticSplit (hlength : 2 ≤ es.length) (max : Nat) :
    (pick es (quadraticSplit (es.map Entry.box) max).1 ++
        pick es (quadraticSplit (es.map Entry.box) max).2).Perm es ∧
      pick es (quadraticSplit (es.map Entry.box) max).1 ≠ [] ∧
      pick es (quadraticSplit (es.map Entry.box) max).2 ≠ [] := by
  have hboxes : 2 ≤ (es.map Entry.box).length := by simpa using hlength
  obtain ⟨hperm, hfirst, hsecond⟩ := quadraticSplit_perm hboxes max
  rw [List.length_map] at hperm
  have some_picked : ∀ positions, (∀ k ∈ positions, k < es.length) → positions ≠ [] →
      pick es positions ≠ [] := by
    intro positions hlt hne
    obtain ⟨k, hk⟩ := List.exists_mem_of_ne_nil _ hne
    obtain ⟨e, he⟩ : ∃ e, es[k]? = some e := ⟨_, List.getElem?_eq_getElem (hlt k hk)⟩
    exact List.ne_nil_of_mem (List.mem_filterMap.mpr ⟨k, hk, he⟩)
  have hlt : ∀ k ∈ (quadraticSplit (es.map Entry.box) max).1 ++
      (quadraticSplit (es.map Entry.box) max).2, k < es.length := fun k hk =>
    List.mem_range.mp (hperm.subset hk)
  refine ⟨?_, some_picked _ (fun k hk => hlt k (List.mem_append_left _ hk)) hfirst,
    some_picked _ (fun k hk => hlt k (List.mem_append_right _ hk)) hsecond⟩
  rw [pick, pick, ← List.filterMap_append]
  exact filterMap_getElem?_perm hperm

theorem tightAt_leafOf {parent : Option Nat} (hj : a[j]? = some (Node.leafOf id parent es))
    (hne : es ≠ []) (hdims : ∀ e ∈ es, e.box.dimension = d) : a.TightAt d j := by
  refine ⟨_, hj, ?_, rfl⟩
  exact Box.dimension_unionAll (by simpa using hdims) (by simpa using hne)

theorem boxAt_graft (hi : a[i]? = some n) (hj : j < a.length) :
    (graft a i id first second).boxAt j = a.boxAt j := by
  have hnode : a[j]? = some a[j] := List.getElem?_eq_getElem hj
  by_cases hji : j = i
  · subst hji
    rw [boxAt_eq (getElem?_graft_self hi), boxAt_eq hi]
    rfl
  · rw [boxAt_eq (getElem?_graft_of_ne hnode hji), boxAt_eq hnode]

theorem Filled.graft (filled : Filled a d) (hi : a[i]? = some n)
    (hfirst : first.size ≠ 0 ∧ ∀ e ∈ first.entries, e.box.dimension = d)
    (hsecond : second.size ≠ 0 ∧ ∀ e ∈ second.entries, e.box.dimension = d) (id : Nat) :
    Filled (graft a i id first second) d := by
  constructor <;> intro j m hj <;>
    obtain ⟨hj, -⟩ | ⟨-, rfl⟩ | ⟨-, rfl⟩ | ⟨-, rfl⟩ := getElem?_graft_cases hi hj
  · exact filled.nonempty hj
  · simp [asDirectory, Node.size]
  · exact hfirst.1
  · exact hsecond.1
  · exact filled.entries hj
  · simp [asDirectory, Node.entries]
  · exact hfirst.2
  · exact hsecond.2

theorem TightAt.graft (linked : Linked a) (hi : a[i]? = some n) (h : a.TightAt d j)
    (hne : j ≠ i) (id : Nat) : (graft a i id first second).TightAt d j := by
  obtain ⟨m, hj, hm⟩ := h
  refine TightAt.congr ⟨m, hj, hm⟩ hj (getElem?_graft_of_ne hj hne) rfl rfl fun c hc => ?_
  rw [boxAt_graft hi (linked.child_lt hj hc).2]

/-- Two leaves with entries leave the arena linked and filled, and are tight themselves. -/
theorem graft_leaves (linked : Linked a) (filled : Filled a d) (hi : a[i]? = some n)
    (hn : n.children = []) {xs ys : List Entry}
    (hxs : xs ≠ [] ∧ ∀ e ∈ xs, e.box.dimension = d)
    (hys : ys ≠ [] ∧ ∀ e ∈ ys, e.box.dimension = d) (id firstId secondId : Nat) :
    let g := graft a i id (Node.leafOf firstId (some i) xs) (Node.leafOf secondId (some i) ys)
    Linked g ∧ Filled g d ∧ g.TightAt d a.length ∧ g.TightAt d (a.length + 1) := by
  have hleaf : ∀ (k : Nat) {zs : List Entry}, zs ≠ [] → (∀ e ∈ zs, e.box.dimension = d) →
      (Node.leafOf k (some i) zs).size ≠ 0 ∧
        ∀ e ∈ (Node.leafOf k (some i) zs).entries, e.box.dimension = d :=
    fun k zs hne hdims => ⟨by simpa [Node.leafOf, Node.size] using hne, hdims⟩
  have gfilled := filled.graft hi (hleaf firstId hxs.1 hxs.2) (hleaf secondId hys.1 hys.2) id
  exact ⟨linked.graft hi hn ⟨rfl, rfl⟩ ⟨rfl, rfl⟩ _, gfilled,
    tightAt_leafOf getElem?_graft_first hxs.1 hxs.2,
    tightAt_leafOf getElem?_graft_second hys.1 hys.2⟩

/-- The entries of the two halves are entries of the leaf, so they are of its dimension. -/
theorem Filled.pick_quadraticSplit (filled : Filled a d) (hi : a[i]? = some n)
    (hn : n.items = .leaf es) (hlength : 2 ≤ es.length) (max : Nat) :
    (pick es (quadraticSplit (es.map Entry.box) max).1 ≠ [] ∧
        ∀ e ∈ pick es (quadraticSplit (es.map Entry.box) max).1, e.box.dimension = d) ∧
      (pick es (quadraticSplit (es.map Entry.box) max).2 ≠ [] ∧
        ∀ e ∈ pick es (quadraticSplit (es.map Entry.box) max).2, e.box.dimension = d) := by
  obtain ⟨hperm, hfirst, hsecond⟩ := Arena.pick_quadraticSplit hlength max
  have hes : ∀ e ∈ es, e.box.dimension = d := by
    have := filled.entries hi
    rwa [Node.entries, hn] at this
  exact ⟨⟨hfirst, fun e he => hes e (hperm.subset (List.mem_append_left _ he))⟩,
    hsecond, fun e he => hes e (hperm.subset (List.mem_append_right _ he))⟩

/-- A directory of two leaves covers what the one leaf did. -/
theorem TightAt.bounds_refit_graft (tight : a.TightAt d i) (hi : a[i]? = some n)
    (hn : n.items = .leaf es) {xs ys : List Entry} (hperm : (xs ++ ys).Perm es)
    (id first second : Nat) :
    let g := Arena.graft a i id (Node.leafOf first (some i) xs) (Node.leafOf second (some i) ys)
    ((Arena.refit g i).boxAt i).bounds = (g.boxAt i).bounds := by
  intro g
  have hold := (tight.node hi).2
  have gself : g[i]? = some (asDirectory id [a.length, a.length + 1] n) := getElem?_graft_self hi
  have gx : g.boxAt a.length = Box.unionAll (xs.map Entry.box) := boxAt_eq getElem?_graft_first
  have gy : g.boxAt (a.length + 1) = Box.unionAll (ys.map Entry.box) :=
    boxAt_eq getElem?_graft_second
  rw [itemBoxes, hn] at hold
  rw [boxAt_eq (getElem?_refit_self gself), boxAt_eq gself]
  calc (Box.unionAll (g.itemBoxes (asDirectory id [a.length, a.length + 1] n))).bounds
      = joinBounds (Box.unionAll (xs.map Entry.box)).bounds
          (Box.unionAll (ys.map Entry.box)).bounds := by
        simp [itemBoxes, asDirectory, gx, gy, Box.bounds_unionAll]
    _ = (Box.unionAll ((xs ++ ys).map Entry.box)).bounds := by
        rw [List.map_append, Box.bounds_unionAll_append]
    _ = (Box.unionAll (es.map Entry.box)).bounds :=
        Box.bounds_unionAll_perm (hperm.map Entry.box)
    _ = n.box.bounds := hold

theorem Covered.divide (linked : Linked a) (covered : Covered a d) (hi : a[i]? = some n)
    (hn : n.items = .leaf es) (hlength : 2 ≤ es.length) (max nextId : Nat) :
    Covered (a.divide max nextId i es) d := by
  obtain ⟨pos, filled, tight⟩ := covered
  have hperm := (pick_quadraticSplit hlength max).1
  obtain ⟨hxs, hys⟩ := filled.pick_quadraticSplit hi hn hlength max
  have hlt : i < a.length := (List.getElem?_eq_some_iff.mp hi).1
  have hleaf : n.children = [] := by rw [Node.children, hn]
  obtain ⟨glinked, gfilled, xtight, ytight⟩ :=
    graft_leaves linked filled hi hleaf hxs hys (nextId + 2) nextId (nextId + 1)
  rw [divide_eq]
  generalize pick es (quadraticSplit (es.map Entry.box) max).1 = xs at *
  generalize pick es (quadraticSplit (es.map Entry.box) max).2 = ys at *
  set x := Node.leafOf nextId (some i) xs with hx
  set y := Node.leafOf (nextId + 1) (some i) ys with hy
  set g := Arena.graft a i (nextId + 2) x y with hg
  have gself : g[i]? = some (asDirectory (nextId + 2) [a.length, a.length + 1] n) :=
    getElem?_graft_self hi
  have gtight : ∀ j < g.length, j ≠ i → g.TightAt d j := by
    intro j hj hji
    rw [hg, length_graft] at hj
    obtain hold | rfl | rfl : j < a.length ∨ j = a.length ∨ j = a.length + 1 := by omega
    · exact (tight j hold).graft linked hi hji _
    · exact xtight
    · exact ytight
  have hself : (Arena.refit g i).TightAt d i := by
    refine tightAt_refit_self glinked gfilled gself fun c hc => ?_
    obtain ⟨hlt, hin⟩ := glinked.child_lt gself hc
    exact (gtight c hin (by omega)).dimension_boxAt
  -- So the parent of the directory stays tight.
  have hbox : ((Arena.refit g i).boxAt i).bounds = (g.boxAt i).bounds :=
    (tight i hlt).bounds_refit_graft hi hn hperm (nextId + 2) nextId (nextId + 1)
  have hshape := sameShape_refit g i
  refine ⟨pos, hshape.filled gfilled, fun j hj => ?_⟩
  have hj' : j < g.length := by
    rwa [hshape.length_eq]
  by_cases hji : j = i
  · exact hji ▸ hself
  · exact (gtight j hj' hji).refit_of_ne (List.getElem?_eq_getElem hj') hji fun _ => hbox

end

end Arena

end RTree

end SpatialSegment
