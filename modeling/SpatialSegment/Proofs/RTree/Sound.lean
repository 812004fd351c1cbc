import SpatialSegment.Proofs.RTree.Cover

/-!
# The invariant of the spatial index

An index is sound if its arena is linked, its boxes are tight, no node lists too much and the
numbers are distinct and below the next one, of which there are few. The empty index is sound, and
an entry that a sound index takes finds its place, which leaves the index sound and with that entry
more.
-/

namespace SpatialSegment

namespace RTree

namespace Arena

section

variable {a b : Arena} {i : Nat} {n : Node} {es : List Entry}

/-! ## The way down -/

theorem cheapest_mem {target : Box} {children : List Nat} {c : Nat}
    (h : a.cheapest target children = some c) : c ∈ children := by
  simp only [cheapest, Option.map_eq_some_iff] at h
  obtain ⟨cost, hcost, rfl⟩ := h
  obtain ⟨c, hc, rfl⟩ := List.mem_map.mp (firstLeast_mem hcost)
  exact hc

theorem exists_cheapest {children : List Nat} (h : children ≠ []) (target : Box) :
    ∃ c, a.cheapest target children = some c := by
  have hne : children.map (a.cost target) ≠ [] := by simpa using h
  obtain ⟨cost, hcost⟩ := firstLeast_isSome Cost.before hne
  exact ⟨cost.position, by rw [cheapest, hcost]; rfl⟩

theorem descend_of_leaf (hi : a[i]? = some n) (hn : n.items = .leaf es) (target : Box) :
    a.descend target i = some i := by
  rw [descend]
  simp [hi, Node.children, hn, cheapest, firstLeast]

theorem descend_of_cheapest {target : Box} {c : Nat} (hi : a[i]? = some n)
    (hc : a.cheapest target n.children = some c) :
    a.descend target i = a.descend target c := by
  rw [descend]
  simp only [hi, hc]

/-- Where no directory is empty, every way down ends at a leaf. -/
theorem exists_descend (linked : Linked a)
    (listing : ∀ {i : Nat} {n : Node}, a[i]? = some n → n.items ≠ .directory [])
    (target : Box) (hi : i < a.length) :
    ∃ j n es, a.descend target i = some j ∧ a[j]? = some n ∧ n.items = .leaf es := by
  induction h : a.length - i using Nat.strongRecOn generalizing i with
  | ind k ih =>
    have hn : a[i]? = some a[i] := List.getElem?_eq_getElem hi
    cases hitems : a[i].items with
    | leaf es => exact ⟨i, a[i], es, descend_of_leaf hn hitems target, hn, hitems⟩
    | directory cs =>
      have hchildren : a[i].children = cs := by rw [Node.children, hitems]
      have hne : cs ≠ [] := fun hnil => listing hn (hnil ▸ hitems)
      obtain ⟨c, hc⟩ := exists_cheapest (a := a) hne target
      obtain ⟨hlt, hin⟩ := linked.child_lt hn (hchildren ▸ cheapest_mem hc)
      obtain ⟨j, m, es, hj, hm, hleaf⟩ := ih (a.length - c) (by omega) hin rfl
      exact ⟨j, m, es, (descend_of_cheapest hn (hchildren ▸ hc)).trans hj, hm, hleaf⟩

/-! ## Entries and numbers -/

theorem SameShape.entries_eq (h : SameShape a b) :
    a.flatMap Node.entries = b.flatMap Node.entries := by
  rw [List.flatMap_def, List.flatMap_def, h.map_eq fun _ => rfl]

theorem SameShape.ids_eq (h : SameShape a b) : a.map Node.id = b.map Node.id :=
  h.map_eq fun _ => rfl

theorem entries_leafOf (id : Nat) (parent : Option Nat) (es : List Entry) :
    (Node.leafOf id parent es).entries = es := rfl

theorem entries_push (hi : a[i]? = some n) (hn : n.items = .leaf es) (e : Entry) :
    (List.flatMap Node.entries (a.modify i (·.push e))).Perm (a.flatMap Node.entries ++ [e]) := by
  obtain ⟨hlt, hget⟩ := List.getElem?_eq_some_iff.mp hi
  obtain ⟨front, m, back, ha, hfront, hmod⟩ := List.exists_of_modify (·.push e) hlt
  have hm : m = n := by simpa [ha, ← hfront] using hget
  subst hm
  have hpush : (m.push e).entries = m.entries ++ [e] := by simp [Node.push, Node.entries, hn]
  rw [hmod, ha]
  simp only [List.flatMap_append, List.flatMap_cons, hpush, List.append_assoc]
  refine .append_left _ (.append_left _ List.perm_append_comm)

theorem entries_divide (hi : a[i]? = some n) (hn : n.items = .leaf es) (hlength : 2 ≤ es.length)
    (max nextId : Nat) :
    (List.flatMap Node.entries (a.divide max nextId i es)).Perm (a.flatMap Node.entries) := by
  have hperm := (pick_quadraticSplit hlength max).1
  obtain ⟨hlt, hget⟩ := List.getElem?_eq_some_iff.mp hi
  rw [divide_eq, ← (sameShape_refit _ _).entries_eq, graft, List.flatMap_append]
  obtain ⟨front, m, back, ha, hfront, hmod⟩ :=
    List.exists_of_modify (asDirectory (nextId + 2) [a.length, a.length + 1]) hlt
  have hm : m = n := by simpa [ha, ← hfront] using hget
  subst hm
  have hleaf : m.entries = es := by rw [Node.entries, hn]
  have hdirectory : (asDirectory (nextId + 2) [a.length, a.length + 1] m).entries = [] := rfl
  rw [hmod]
  conv_rhs => rw [ha]
  simp only [List.flatMap_append, List.flatMap_cons, hdirectory, hleaf, List.nil_append,
    List.flatMap_nil, List.append_nil, entries_leafOf, List.append_assoc]
  refine .append_left _ (List.perm_append_comm.trans (hperm.append_right _))

theorem map_id_divide (a : Arena) (max nextId i : Nat) (es : List Entry) :
    List.map Node.id (a.divide max nextId i es) =
      (a.map Node.id).set i (nextId + 2) ++ [nextId, nextId + 1] := by
  rw [divide_eq, ← (sameShape_refit _ _).ids_eq, graft, List.map_append]
  congr 1
  apply List.ext_getElem?
  intro j
  rw [List.getElem?_map, List.getElem?_modify, List.getElem?_set, List.length_map,
    List.getElem?_map]
  by_cases hij : i = j
  · subst hij
    by_cases hi : i < a.length
    · simp [hi, asDirectory]
    · simp [hi]
  · simp [hij]

theorem length_divide (a : Arena) (max nextId i : Nat) (es : List Entry) :
    (a.divide max nextId i es).length = a.length + 2 := by
  rw [divide_eq, ← (sameShape_refit _ _).length_eq, length_graft]

/-- Neither half of a leaf with one entry too much has too many. -/
theorem size_divide {max : Nat} (hi : a[i]? = some n) (two_le : 2 ≤ max)
    (hfew : 2 ≤ es.length) (hmany : es.length ≤ max + 1)
    (others : ∀ {j : Nat} {m : Node}, a[j]? = some m → j ≠ i → m.size ≤ max)
    {nextId j : Nat} {m : Node} (hj : (a.divide max nextId i es)[j]? = some m) : m.size ≤ max := by
  obtain ⟨hperm, hfirst, hsecond⟩ := pick_quadraticSplit hfew max
  have hsum := hperm.length_eq
  rw [List.length_append] at hsum
  have hfirst' := List.length_pos_of_ne_nil hfirst
  have hsecond' := List.length_pos_of_ne_nil hsecond
  rw [divide_eq] at hj
  obtain ⟨box, hm⟩ := (sameShape_refit _ _).symm.get hj
  change Node.size { m with box } ≤ max
  obtain ⟨hold, hne⟩ | ⟨-, hm⟩ | ⟨-, hm⟩ | ⟨-, hm⟩ := getElem?_graft_cases hi hm
  · exact others hold hne
  · rw [hm]
    exact two_le
  · rw [hm]
    change List.length _ ≤ max
    omega
  · rw [hm]
    change List.length _ ≤ max
    omega

end

end Arena

/-! ## The invariant -/

/-- What holds of an index but that one leaf may list too much. -/
structure WellFormed (t : RTree) : Prop where
  linked : Arena.Linked t.nodes
  distinct : (t.nodes.map Node.id).Nodup
  below : ∀ id ∈ t.nodes.map Node.id, id < t.nextId
  newest : ∃ id ∈ t.nodes.map Node.id, id + 1 = t.nextId
  numbers : 2 * t.nextId + 1 = 3 * t.nodes.length
  counted : t.length = t.entries.length
  boxes : t.nodes = (empty t.maxNodeSize t.two_le).nodes ∨ ∃ d, Arena.Covered t.nodes d

structure Sound (t : RTree) : Prop extends WellFormed t where
  few : t.nextId ≤ 3 * t.length + 1
  bounded : ∀ {i : Nat} {n : Node}, t.nodes[i]? = some n → n.size ≤ t.maxNodeSize

theorem sound_empty (maxNodeSize : Nat) (two_le : 2 ≤ maxNodeSize) :
    Sound (empty maxNodeSize two_le) := by
  refine ⟨⟨Arena.linked_singleton rfl rfl, ?_, ?_, ⟨0, ?_, rfl⟩, rfl, rfl, .inl rfl⟩,
    Nat.le_refl _, ?_⟩
  · simp [empty]
  · simp [empty]
  · simp [empty]
  · intro i n hi
    obtain ⟨-, rfl⟩ := eq_of_getElem?_singleton hi
    exact Nat.zero_le _

theorem settle_of_leaf {t : RTree} {i : Nat} {n : Node} {es : List Entry}
    (hi : t.nodes[i]? = some n) (hn : n.items = .leaf es) :
    t.settle i = if es.length ≤ t.maxNodeSize then t else
      { t with
        nodes := t.nodes.divide t.maxNodeSize t.nextId i es
        nextId := t.nextId + 3 } := by
  obtain ⟨id, box, parent, items⟩ := n
  subst hn
  rw [settle]
  simp only [hi]

theorem WellFormed.covered {t : RTree} (wf : WellFormed t) {i : Nat} {n : Node}
    (hi : t.nodes[i]? = some n) (hn : n.size ≠ 0) : ∃ d, Arena.Covered t.nodes d := by
  refine wf.boxes.resolve_left fun hempty => ?_
  have hmem := List.mem_of_getElem? hi
  rw [hempty] at hmem
  cases List.mem_singleton.mp hmem
  exact hn rfl

theorem WellFormed.listing {t : RTree} (wf : WellFormed t) {i : Nat} {n : Node}
    (hi : t.nodes[i]? = some n) : n.items ≠ .directory [] := by
  intro hnil
  obtain hempty | ⟨d, covered⟩ := wf.boxes
  · have hmem := List.mem_of_getElem? hi
    rw [hempty] at hmem
    cases List.mem_singleton.mp hmem
    cases hnil
  · exact covered.filled.nonempty hi (by rw [Node.size, hnil]; rfl)

section

variable {t : RTree} {i : Nat} {n : Node} {es : List Entry}

/-- The directory that takes the place of a leaf has a new number, and the others keep theirs. -/
theorem WellFormed.id_of_mem_set (wf : WellFormed t) {id : Nat}
    (hid : id ∈ (t.nodes.map Node.id).set i (t.nextId + 2)) :
    id < t.nextId ∨ id = t.nextId + 2 := by
  obtain hmem | rfl := List.mem_or_eq_of_mem_set hid
  · exact .inl (wf.below id hmem)
  · exact .inr rfl

theorem WellFormed.divide (wf : WellFormed t) (hi : t.nodes[i]? = some n)
    (hn : n.items = .leaf es) (hlength : 2 ≤ es.length) :
    WellFormed { t with
      nodes := t.nodes.divide t.maxNodeSize t.nextId i es
      nextId := t.nextId + 3 } := by
  have hlt : i < t.nodes.length := (List.getElem?_eq_some_iff.mp hi).1
  have hids := Arena.map_id_divide t.nodes t.maxNodeSize t.nextId i es
  have hleaf : n.children = [] := by rw [Node.children, hn]
  have hsize : n.size = es.length := by rw [Node.size, hn]
  obtain ⟨d, covered⟩ := wf.covered hi (by omega)
  constructor
  case linked => exact wf.linked.divide hi hleaf _ _ _
  case distinct =>
    rw [hids]
    refine List.Nodup.append (wf.distinct.set ?_) (by simp) ?_
    · intro hmem
      have := wf.below _ hmem
      omega
    · intro id hid hnew
      have := wf.id_of_mem_set hid
      simp only [List.mem_cons, List.not_mem_nil, or_false] at hnew
      omega
  case below =>
    rw [hids]
    intro id hid
    simp only [List.mem_append, List.mem_cons, List.not_mem_nil, or_false] at hid ⊢
    obtain hid | hid := hid
    · have := wf.id_of_mem_set hid
      omega
    · omega
  case newest =>
    refine ⟨t.nextId + 2, ?_, rfl⟩
    rw [hids]
    exact List.mem_append_left _ (List.mem_set (by simpa using hlt) _)
  case numbers =>
    have := wf.numbers
    simp only [Arena.length_divide]
    omega
  case counted =>
    rw [wf.counted]
    exact (Arena.entries_divide hi hn hlength t.maxNodeSize t.nextId).length_eq.symm
  case boxes => exact .inr ⟨d, covered.divide wf.linked hi hn hlength _ _⟩

/-- The leaf that may list one entry too much is put right. -/
theorem WellFormed.settle (wf : WellFormed t) (hi : t.nodes[i]? = some n)
    (hn : n.items = .leaf es) (hlength : es.length ≤ t.maxNodeSize + 1)
    (few : t.nextId + 3 ≤ 3 * t.length + 1)
    (others : ∀ {j : Nat} {m : Node}, t.nodes[j]? = some m → j ≠ i → m.size ≤ t.maxNodeSize) :
    Sound (t.settle i) ∧ (t.settle i).entries.Perm t.entries := by
  rw [settle_of_leaf hi hn]
  split
  · rename_i hle
    refine ⟨⟨wf, by omega, fun {j m} hj => ?_⟩, .refl _⟩
    by_cases hji : j = i
    · subst hji
      rw [hi] at hj
      cases hj
      rwa [Node.size, hn]
    · exact others hj hji
  · have htwo := t.two_le
    have hes : 2 ≤ es.length := by omega
    refine ⟨⟨wf.divide hi hn hes, few, fun {j m} hj => ?_⟩, Arena.entries_divide hi hn hes _ _⟩
    exact Arena.size_divide hi htwo hes hlength others hj

end

/-! ## Insertion -/

theorem dimension?_of_covered {t : RTree} (wf : WellFormed t) {d : Nat}
    (covered : Arena.Covered t.nodes d) : t.dimension? = some d := by
  have hd := (covered.tight rootPosition wf.linked.pos).dimension_boxAt
  have hfull : t.box.isFullSpace = false := by
    rw [← Bool.not_eq_true, Box.isFullSpace_iff, box, hd]
    exact Nat.ne_of_gt covered.pos
  rw [dimension?, hfull]
  simpa [box] using hd

theorem accepts_iff_of_covered {t : RTree} (wf : WellFormed t) {d : Nat}
    (covered : Arena.Covered t.nodes d) (e : Entry) :
    t.accepts e = true ↔ e.box.dimension = d := by
  have hpos := covered.pos
  have hfull : e.box.isFullSpace = true ↔ e.box.dimension = 0 := Box.isFullSpace_iff
  simp only [accepts, dimension?_of_covered wf covered, Option.isNone_some, Bool.false_or,
    Bool.and_eq_true, Bool.not_eq_true', beq_iff_eq, Option.some.injEq]
  rw [← Bool.not_eq_true, hfull]
  omega

theorem accepts_dimension_pos {t : RTree} {e : Entry} (h : t.accepts e = true) :
    0 < e.box.dimension := by
  simp only [accepts, Bool.and_eq_true, Bool.not_eq_true'] at h
  rw [← Bool.not_eq_true, Box.isFullSpace_iff] at h
  omega

section Place

variable {t : RTree} {e : Entry} {i : Nat} {n : Node} {es : List Entry}

theorem Arena.getElem?_push {a : Arena} (hi : a[i]? = some n) (hn : n.items = .leaf es)
    {j : Nat} {m : Node} (hj : (a.modify i (·.push e))[j]? = some m) :
    (j ≠ i ∧ a[j]? = some m) ∨ (j = i ∧ m = { n with items := .leaf (es ++ [e]) }) := by
  rw [List.getElem?_modify] at hj
  by_cases hji : j = i
  · subst hji
    simp only [hi, if_true, Option.map_eq_map, Option.map_some, Option.some.injEq] at hj
    refine .inr ⟨rfl, ?_⟩
    rw [← hj, Node.push, hn]
  · simp only [Ne.symm hji, if_false, Option.map_eq_map, Option.map_id'] at hj
    exact .inl ⟨hji, hj⟩

theorem Arena.boxAt_push (a : Arena) (i j : Nat) :
    Arena.boxAt (a.modify i (·.push e)) j = a.boxAt j := by
  have hbox : ∀ n : Node, (n.push e).box = n.box := fun n => by
    unfold Node.push
    split <;> rfl
  simp only [Arena.boxAt, List.getElem?_modify]
  split
  · cases a[j]? <;> simp [hbox]
  · simp

/-- With the entry on a leaf everything lists something, and only that leaf may have a wrong box. -/
theorem Sound.push (sound : Sound t) (h : t.accepts e = true) (hi : t.nodes[i]? = some n)
    (hn : n.items = .leaf es) :
    Arena.Filled (t.nodes.modify i (·.push e)) e.box.dimension ∧
      ∀ j < t.nodes.length, j ≠ i →
        Arena.TightAt (t.nodes.modify i (·.push e)) e.box.dimension j := by
  have old : (∀ {j : Nat} {m : Node}, t.nodes[j]? = some m →
        ∀ x ∈ m.entries, x.box.dimension = e.box.dimension) ∧
      ∀ {j : Nat} {m : Node}, t.nodes[j]? = some m → j ≠ i →
        m.size ≠ 0 ∧ t.nodes.TightAt e.box.dimension j := by
    obtain hempty | ⟨d, covered⟩ := sound.boxes
    · have only : ∀ {j : Nat} {m : Node}, t.nodes[j]? = some m → j = 0 ∧ m.entries = [] := by
        intro j m hj
        rw [hempty, empty, List.getElem?_singleton] at hj
        split at hj
        · cases hj
          exact ⟨‹_›, rfl⟩
        · cases hj
      refine ⟨fun hj x hx => ?_, fun hj hji => ?_⟩
      · rw [(only hj).2] at hx
        cases hx
      · exact absurd ((only hj).1.trans (only hi).1.symm) hji
    · have hd := (accepts_iff_of_covered sound.toWellFormed covered e).mp h
      rw [hd]
      exact ⟨covered.filled.entries, fun hj _ =>
        ⟨covered.filled.nonempty hj, covered.tight _ (List.getElem?_eq_some_iff.mp hj).1⟩⟩
  obtain ⟨old_entries, old_others⟩ := old
  refine ⟨⟨fun {j m} hj => ?_, fun {j m} hj => ?_⟩, fun j hj hji => ?_⟩
  · obtain ⟨hji, hj⟩ | ⟨-, rfl⟩ := Arena.getElem?_push hi hn hj
    · exact (old_others hj hji).1
    · simp [Node.size]
  · obtain ⟨-, hj⟩ | ⟨-, rfl⟩ := Arena.getElem?_push hi hn hj
    · exact old_entries hj
    · have hes := old_entries hi
      rw [Node.entries, hn] at hes
      intro x hx
      obtain hx | hx := List.mem_append.mp hx
      · exact hes x hx
      · rw [List.mem_singleton.mp hx]
  · have hj' : t.nodes[j]? = some t.nodes[j] := List.getElem?_eq_getElem hj
    have hpushed : (t.nodes.modify i (·.push e))[j]? = some t.nodes[j] := by
      rw [List.getElem?_modify, hj']
      simp [Ne.symm hji]
    refine (old_others hj' hji).2.congr hj' hpushed rfl rfl fun c _ => ?_
    rw [Arena.boxAt_push]

/-- With the entry at the end of the leaf at a position the boxes computed anew from there up make
the arena `b`, in which that leaf may be too long. -/
structure Grown (t : RTree) (e : Entry) (i : Nat) (b : Arena) : Prop where
  descend : t.nodes.descend e.box rootPosition = some i
  leaf : ∃ n es, t.nodes[i]? = some n ∧ n.items = .leaf es
  refitUp : Arena.refitUp (t.nodes.modify i (·.push e)) i = some b
  grown : ∃ n es, b[i]? = some n ∧ n.items = .leaf es ∧ es.length ≤ t.maxNodeSize + 1
  others : ∀ {j : Nat} {n : Node}, b[j]? = some n → j ≠ i → n.size ≤ t.maxNodeSize
  covered : Arena.Covered b e.box.dimension
  wellFormed : WellFormed { t with nodes := b, length := t.length + 1 }
  entries : (List.flatMap Node.entries b).Perm (t.entries ++ [e])

theorem Sound.exists_grown (sound : Sound t) (h : t.accepts e = true) :
    ∃ i b, Grown t e i b := by
  obtain ⟨i, n, es, hdescend, hi, hn⟩ := Arena.exists_descend sound.linked sound.listing e.box
    sound.linked.pos
  have hlt : i < t.nodes.length := (List.getElem?_eq_some_iff.mp hi).1
  obtain ⟨filled, tight⟩ := sound.push h hi hn
  have hlinked := sound.linked.push hi hn e
  obtain ⟨b, hb, hshape, hbtight⟩ := Arena.exists_refitUp hlinked filled (by simpa using hlt)
    (by simpa using tight)
  have covered : Arena.Covered b e.box.dimension :=
    ⟨accepts_dimension_pos h, hshape.filled filled, hbtight⟩
  have hentries := (List.Perm.of_eq hshape.entries_eq.symm).trans (Arena.entries_push hi hn e)
  have hids : b.map Node.id = t.nodes.map Node.id := by
    rw [← hshape.ids_eq]
    exact Arena.map_modify_of_eq fun m _ => by
      unfold Node.push
      split <;> rfl
  have hlength : t.nodes.length = b.length := by
    simpa using hshape.length_eq
  have hself : (t.nodes.modify i (·.push e))[i]? =
      some { n with items := .leaf (es ++ [e]) } := by
    rw [List.getElem?_modify, hi]
    simp [Node.push, hn]
  obtain ⟨box, hbi⟩ := hshape.get hself
  have hsize := sound.bounded hi
  rw [Node.size, hn] at hsize
  refine ⟨i, b, hdescend, ⟨n, es, hi, hn⟩, hb, ⟨_, _, hbi, rfl, by simpa using hsize⟩, ?_, covered,
    ⟨hshape.linked hlinked, hids ▸ sound.distinct, hids ▸ sound.below, hids ▸ sound.newest,
      hlength ▸ sound.numbers, ?_, .inr ⟨_, covered⟩⟩, hentries⟩
  · intro j m hj hji
    obtain ⟨box, hj'⟩ := hshape.symm.get hj
    obtain ⟨-, hold⟩ | ⟨hji', -⟩ := Arena.getElem?_push hi hn hj'
    · exact sound.bounded (n := { m with box }) hold
    · exact absurd hji' hji
  · have hcount := hentries.length_eq
    rw [List.length_append] at hcount
    exact (congrArg (· + 1) sound.counted).trans hcount.symm

/-- A sound index finds a place for every entry that it takes. -/
theorem Sound.exists_place (sound : Sound t) (h : t.accepts e = true) :
    ∃ t', t.place e = some t' ∧ Sound t' ∧ t'.entries.Perm (t.entries ++ [e]) := by
  obtain ⟨i, b, grown⟩ := sound.exists_grown h
  obtain ⟨n, es, hi, hn, hlength⟩ := grown.grown
  have hfew := sound.few
  obtain ⟨hsound, hperm⟩ := grown.wellFormed.settle hi hn hlength
    (show t.nextId + 3 ≤ 3 * (t.length + 1) + 1 by omega) grown.others
  refine ⟨_, ?_, hsound, hperm.trans grown.entries⟩
  simp only [place, grown.descend, grown.refitUp, Option.bind_eq_bind, Option.bind_some,
    Option.pure_def]

end Place

end RTree

end SpatialSegment
