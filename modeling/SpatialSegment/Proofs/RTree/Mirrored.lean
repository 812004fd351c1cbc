import SpatialSegment.Proofs.RTree.Renaming

/-!
# Insertion under new names

Of two indexes that differ in the names of positions only, each goes the way of the other: an entry
goes down to the leaf of the other name, the boxes from there up become the same, and a leaf that is
too long is divided alike. New nodes take places at the ends of both arenas, so a renaming keeps
the old names and gives the new positions their own.
-/

namespace SpatialSegment

theorem firstLeast_map {α β : Type} {f : α → β} {before : α → α → Bool} {before' : β → β → Bool}
    (h : ∀ x y, before' (f x) (f y) = before x y) (xs : List α) :
    firstLeast before' (xs.map f) = (firstLeast before xs).map f := by
  cases xs with
  | nil => rfl
  | cons x xs =>
    have hfold : ∀ (ys : List α) (y : α),
        (ys.map f).foldl (fun best z => if before' z best then z else best) (f y) =
          f (ys.foldl (fun best z => if before z best then z else best) y) := by
      intro ys
      induction ys with
      | nil => exact fun _ => rfl
      | cons z ys ih =>
        intro y
        rw [List.map_cons, List.foldl_cons, List.foldl_cons, h]
        cases before z y with
        | false => exact ih y
        | true => exact ih z
    rw [List.map_cons, firstLeast, firstLeast, hfold]
    rfl

namespace RTree

theorem Node.rename_push (π : Nat → Nat) (n : Node) (e : Entry) :
    (n.push e).rename π = (n.rename π).push e := by
  obtain ⟨id, box, parent, items⟩ := n
  cases items <;> rfl

theorem Node.rename_leafOf (π : Nat → Nat) (id i : Nat) (entries : List Entry) :
    (Node.leafOf id (some i) entries).rename π = Node.leafOf id (some (π i)) entries := rfl

theorem Node.rename_self (n : Node) : n.rename (fun i => i) = n := by
  obtain ⟨number, box, parent, items⟩ := n
  cases items <;> simp [Node.rename]

/-- Only the names of the positions next to a node matter. -/
theorem Node.rename_congr {π ρ : Nat → Nat} {n : Node} (hparent : ∀ p ∈ n.parent, π p = ρ p)
    (hchildren : ∀ c ∈ n.children, π c = ρ c) : n.rename π = n.rename ρ := by
  obtain ⟨id, box, parent, items⟩ := n
  have hlink : parent.map π = parent.map ρ := Option.map_congr hparent
  cases items with
  | leaf entries => rw [Node.rename, Node.rename, hlink]
  | directory children =>
    have hlist : children.map π = children.map ρ := List.map_congr_left hchildren
    simp only [Node.rename, hlink, hlist]

namespace Arena

section

variable {a b : Arena} {π : Nat → Nat} {i : Nat} {n : Node}

theorem Renames.sizeAt_eq (renames : Renames π a b) (hi : i < a.length) :
    b.sizeAt (π i) = a.sizeAt i := by
  have hn : a[i]? = some a[i] := List.getElem?_eq_getElem hi
  rw [sizeAt, sizeAt, renames.node hn, hn]
  simp

/-! ## The way down -/

theorem Renames.cheapest_eq (renames : Renames π a b) {children : List Nat}
    (inside : ∀ c ∈ children, c < a.length) (target : Box) :
    b.cheapest target (children.map π) = (a.cheapest target children).map π := by
  have hcosts : (children.map π).map (b.cost target) =
      (children.map (a.cost target)).map fun c => { c with position := π c.position } := by
    rw [List.map_map, List.map_map]
    refine List.map_congr_left fun c hc => ?_
    simp only [Function.comp_apply, cost, renames.boxAt_eq (inside c hc),
      renames.sizeAt_eq (inside c hc)]
  have hbefore : ∀ x y : Cost, Cost.before { x with position := π x.position }
      { y with position := π y.position } = Cost.before x y := fun _ _ => rfl
  have hleast := firstLeast_map hbefore (children.map (a.cost target))
  rw [cheapest, hcosts, hleast, cheapest, Option.map_map, Option.map_map]
  rfl

/-- A box goes down to the position of the new name. -/
theorem Renames.descend_eq (renames : Renames π a b) (linked : Linked a) (target : Box)
    (hi : i < a.length) : b.descend target (π i) = (a.descend target i).map π := by
  induction hk : a.length - i using Nat.strongRecOn generalizing i with
  | ind k ih =>
    have hn : a[i]? = some a[i] := List.getElem?_eq_getElem hi
    have hinside : ∀ c ∈ a[i].children, c < a.length := fun c hc => (linked.child_lt hn hc).2
    have hcheapest := renames.cheapest_eq hinside target
    rw [← Node.children_rename] at hcheapest
    rw [descend, renames.node hn, descend, hn]
    simp only [hcheapest]
    cases hc : a.cheapest target a[i].children with
    | none => rfl
    | some c =>
      obtain ⟨hlt, hin⟩ := linked.child_lt hn (cheapest_mem hc)
      exact ih (a.length - c) (by omega) hin rfl

/-! ## Nodes changed in their places -/

/-- The same change of the node at a position in both arenas. -/
theorem Renames.modify (renames : Renames π a b) (hi : i < a.length) {f g : Node → Node}
    (h : ∀ n, a[i]? = some n → g (n.rename π) = (f n).rename π) :
    Renames π (a.modify i f) (b.modify (π i) g) where
  length := by rw [List.length_modify, List.length_modify, renames.length]
  root := renames.root
  lt := by
    intro j hj
    rw [List.length_modify] at hj ⊢
    exact renames.lt hj
  injective := by
    intro j k hj hk
    rw [List.length_modify] at hj hk
    exact renames.injective hj hk
  node := by
    intro j n hj
    by_cases hij : i = j
    · subst hij
      rw [List.getElem?_modify_eq] at hj ⊢
      obtain ⟨m, hm, rfl⟩ := Option.map_eq_some_iff.mp hj
      rw [renames.node hm, ← h m hm]
      rfl
    · rw [List.getElem?_modify_ne _ _ hij] at hj
      have hlt := (List.getElem?_eq_some_iff.mp hj).1
      rw [List.getElem?_modify_ne _ _ fun heq => hij (renames.injective hi hlt heq)]
      exact renames.node hj

theorem Renames.push (renames : Renames π a b) (hi : i < a.length) (e : Entry) :
    Renames π (a.modify i (·.push e)) (b.modify (π i) (·.push e)) :=
  renames.modify hi fun n _ => (Node.rename_push π n e).symm

theorem Renames.itemBoxes_eq (renames : Renames π a b) (linked : Linked a) (hi : a[i]? = some n) :
    b.itemBoxes (n.rename π) = a.itemBoxes n := by
  obtain ⟨id, box, parent, items⟩ := n
  cases items with
  | leaf entries => rfl
  | directory children =>
    change (children.map π).map b.boxAt = children.map a.boxAt
    rw [List.map_map]
    exact List.map_congr_left fun c hc => renames.boxAt_eq (linked.child_lt hi hc).2

theorem Renames.refit (renames : Renames π a b) (linked : Linked a) (hi : i < a.length) :
    Renames π (a.refit i) (b.refit (π i)) := by
  refine renames.modify hi fun n hn => ?_
  rw [renames.itemBoxes_eq linked hn]
  rfl

/-- The boxes up to the root become the same. -/
theorem Renames.refitUp (renames : Renames π a b) (linked : Linked a) (hi : i < a.length)
    {a' : Arena} (h : a.refitUp i = some a') :
    ∃ b', b.refitUp (π i) = some b' ∧ Renames π a' b' := by
  induction i using Nat.strongRecOn generalizing a b with
  | ind i ih =>
    have hn : a[i]? = some a[i] := List.getElem?_eq_getElem hi
    have hrefit := renames.refit linked hi
    cases hparent : a[i].parent with
    | none =>
      rw [refitUp_of_root hn hparent] at h
      cases h
      exact ⟨_, refitUp_of_root (renames.node hn) (by rw [Node.rename, hparent]; rfl), hrefit⟩
    | some p =>
      obtain ⟨hlt, -⟩ := linked.exists_parent hn hparent
      have hshape := sameShape_refit a i
      have hp : p < (a.refit i).length := by
        rw [← hshape.length_eq]
        omega
      rw [refitUp_of_parent hn hparent] at h
      obtain ⟨b', hb', hrenames⟩ := ih p hlt hrefit (hshape.linked linked) hp h
      refine ⟨b', ?_, hrenames⟩
      rw [refitUp_of_parent (renames.node hn) (by rw [Node.rename, hparent]; rfl)]
      exact hb'

/-! ## A leaf divided -/

/-- The old names, and for positions from `bound` on their own. -/
def extended (π : Nat → Nat) (bound j : Nat) : Nat :=
  if j < bound then π j else j

theorem extended_of_lt {bound j : Nat} (h : j < bound) : extended π bound j = π j := if_pos h

theorem extended_of_le {bound j : Nat} (h : bound ≤ j) : extended π bound j = j :=
  if_neg (Nat.not_lt.mpr h)

/-- The old nodes have only old neighbours. -/
theorem Linked.rename_extended (linked : Linked a) (hi : a[i]? = some n) :
    n.rename (extended π a.length) = n.rename π := by
  have hlt := (List.getElem?_eq_some_iff.mp hi).1
  apply Node.rename_congr
  · intro p hp
    exact extended_of_lt (Nat.lt_trans (linked.exists_parent hi hp).1 hlt)
  · intro c hc
    exact extended_of_lt (linked.child_lt hi hc).2

/-- New positions are behind the old ones on both sides, so no two names fall together. -/
theorem Renames.extended_injective (renames : Renames π a b) {j k : Nat}
    (h : extended π a.length j = extended π a.length k) : j = k := by
  have hlength := renames.length
  rcases Nat.lt_or_ge j a.length with hj | hj
  · rcases Nat.lt_or_ge k a.length with hk | hk
    · rw [extended_of_lt hj, extended_of_lt hk] at h
      exact renames.injective hj hk h
    · have hlt := renames.lt hj
      rw [extended_of_lt hj, extended_of_le hk] at h
      omega
  · rcases Nat.lt_or_ge k a.length with hk | hk
    · have hlt := renames.lt hk
      rw [extended_of_le hj, extended_of_lt hk] at h
      omega
    · rwa [extended_of_le hj, extended_of_le hk] at h

theorem Renames.graft (renames : Renames π a b) (linked : Linked a) (hi : a[i]? = some n)
    (id firstId secondId : Nat) (first second : List Entry) :
    Renames (extended π a.length)
      (Arena.graft a i id (Node.leafOf firstId (some i) first)
        (Node.leafOf secondId (some i) second))
      (Arena.graft b (π i) id (Node.leafOf firstId (some (π i)) first)
        (Node.leafOf secondId (some (π i)) second)) := by
  have hlength := renames.length
  have hlt := (List.getElem?_eq_some_iff.mp hi).1
  have hself : extended π a.length i = π i := extended_of_lt hlt
  have hfirst : extended π a.length a.length = b.length := by
    rw [extended_of_le (Nat.le_refl _), hlength]
  have hsecond : extended π a.length (a.length + 1) = b.length + 1 := by
    rw [extended_of_le (Nat.le_succ _), hlength]
  constructor
  · rw [length_graft, length_graft, hlength]
  · have hroot : rootPosition < a.length := Nat.zero_lt_of_lt hlt
    rw [extended_of_lt hroot, renames.root]
  · intro j hj
    rw [length_graft] at hj ⊢
    rcases Nat.lt_or_ge j a.length with hold | hnew
    · rw [extended_of_lt hold]
      exact Nat.lt_add_right 2 (renames.lt hold)
    · rw [extended_of_le hnew]
      omega
  · intro j k _ _ hjk
    exact renames.extended_injective hjk
  · intro j m hj
    obtain ⟨hold, hne⟩ | ⟨rfl, rfl⟩ | ⟨rfl, rfl⟩ | ⟨rfl, rfl⟩ := getElem?_graft_cases hi hj
    · have hjlt := (List.getElem?_eq_some_iff.mp hold).1
      rw [extended_of_lt hjlt, linked.rename_extended hold]
      exact getElem?_graft_of_ne (renames.node hold)
        fun heq => hne (renames.injective hjlt hlt heq)
    · have hrename := linked.rename_extended (π := π) hi
      have hparent : n.parent.map (extended π a.length) = n.parent.map π :=
        congrArg Node.parent hrename
      rw [hself, getElem?_graft_self (renames.node hi)]
      simp only [asDirectory, Node.rename, List.map_cons, List.map_nil, hfirst, hsecond, hparent]
    · rw [hfirst, getElem?_graft_first, Node.rename_leafOf, hself]
    · rw [hsecond, getElem?_graft_second, Node.rename_leafOf, hself]

/-- A leaf is divided alike, and the two arenas stay the same but for names. -/
theorem Renames.divide (renames : Renames π a b) (linked : Linked a) (hi : a[i]? = some n)
    (hleaf : n.children = []) (max nextId : Nat) (entries : List Entry) :
    Renames (extended π a.length) (a.divide max nextId i entries)
      (b.divide max nextId (π i) entries) := by
  have hlt := (List.getElem?_eq_some_iff.mp hi).1
  have hself : extended π a.length i = π i := extended_of_lt hlt
  rw [divide_eq, divide_eq, ← hself]
  apply Renames.refit
  · rw [hself]
    exact renames.graft linked hi _ _ _ _ _
  · exact linked.graft hi hleaf ⟨rfl, rfl⟩ ⟨rfl, rfl⟩ _
  · rw [length_graft]
    omega

end

end Arena

/-- The index differs from the plain one in the names of its positions only. -/
structure Mirrors (π : Nat → Nat) (plain t : RTree) : Prop where
  arena : Arena.Renames π plain.nodes t.nodes
  maxNodeSize : t.maxNodeSize = plain.maxNodeSize
  nextId : t.nextId = plain.nextId
  length : t.length = plain.length

section

variable {π : Nat → Nat} {plain t : RTree} {e : Entry}

theorem Mirrors.refl (t : RTree) : Mirrors (fun i => i) t t := by
  refine ⟨⟨rfl, rfl, fun hi => hi, fun _ _ h => h, ?_⟩, rfl, rfl, rfl⟩
  intro i n hi
  rw [Node.rename_self]
  exact hi

theorem Mirrors.box_eq (mirrors : Mirrors π plain t) (linked : Arena.Linked plain.nodes) :
    t.box = plain.box := by
  have hbox := mirrors.arena.boxAt_eq linked.pos
  rwa [mirrors.arena.root] at hbox

/-- Both indexes take the same entries. -/
theorem Mirrors.accepts_eq (mirrors : Mirrors π plain t) (linked : Arena.Linked plain.nodes)
    (e : Entry) : t.accepts e = plain.accepts e := by
  have hbox := mirrors.box_eq linked
  simp only [accepts, dimension?, hbox]

theorem Mirrors.query_eq (mirrors : Mirrors π plain t) (linked : Arena.Linked plain.nodes)
    (region : Box) : t.query region = plain.query region := by
  obtain ⟨r, hr, -⟩ := linked.root
  have hroot := (List.getElem?_eq_some_iff.mp hr).1
  have hsearch := mirrors.arena.search_eq linked region [rootPosition] (by simpa using hroot) []
  rw [List.map_singleton, mirrors.arena.root] at hsearch
  rw [query, query, queryAfter, queryAfter, hsearch]

theorem Mirrors.settle (mirrors : Mirrors π plain t) (linked : Arena.Linked plain.nodes) {i : Nat}
    {n : Node} {es : List Entry} (hi : plain.nodes[i]? = some n) (hn : n.items = .leaf es) :
    ∃ π', Mirrors π' (plain.settle i) (t.settle (π i)) := by
  have hleaf : n.children = [] := by rw [Node.children, hn]
  have hitems : (n.rename π).items = .leaf es := by rw [Node.rename, hn]
  have hmax := mirrors.maxNodeSize
  have hnext := mirrors.nextId
  rw [settle_of_leaf hi hn, settle_of_leaf (mirrors.arena.node hi) hitems]
  by_cases hle : es.length ≤ plain.maxNodeSize
  · rw [if_pos hle, if_pos (hmax ▸ hle)]
    exact ⟨π, mirrors⟩
  · rw [if_neg hle, if_neg (hmax ▸ hle)]
    refine ⟨Arena.extended π plain.nodes.length, ?_, hmax, congrArg (· + 3) hnext,
      mirrors.length⟩
    change Arena.Renames _ _ (t.nodes.divide t.maxNodeSize t.nextId (π i) es)
    rw [hmax, hnext]
    exact mirrors.arena.divide linked hi hleaf _ _ _

/-- An entry finds its place in both indexes, and they stay the same but for names. -/
theorem Mirrors.place (mirrors : Mirrors π plain t) (sound : Sound plain)
    (h : plain.accepts e = true) :
    ∃ t' π', t.place e = some t' ∧ Mirrors π' (plain.insert e) t' := by
  obtain ⟨i, b, grown⟩ := sound.exists_grown h
  obtain ⟨n, es, hi, hn⟩ := grown.leaf
  have hlt := (List.getElem?_eq_some_iff.mp hi).1
  obtain ⟨r, hr, -⟩ := sound.linked.root
  have hdescend := mirrors.arena.descend_eq sound.linked e.box (List.getElem?_eq_some_iff.mp hr).1
  rw [mirrors.arena.root, grown.descend] at hdescend
  obtain ⟨b', hrefit, hrenames⟩ := (mirrors.arena.push hlt e).refitUp (sound.linked.push hi hn e)
    (by rwa [List.length_modify]) grown.refitUp
  obtain ⟨m, es', hm, hm', -⟩ := grown.grown
  have hmirrors : Mirrors π { plain with nodes := b, length := plain.length + 1 }
      { t with nodes := b', length := t.length + 1 } :=
    ⟨hrenames, mirrors.maxNodeSize, mirrors.nextId, congrArg (· + 1) mirrors.length⟩
  obtain ⟨π', hsettled⟩ := hmirrors.settle grown.wellFormed.linked hm hm'
  refine ⟨RTree.settle { t with nodes := b', length := t.length + 1 } (π i), π', ?_, ?_⟩
  · simp only [RTree.place, hdescend, Option.map_some, hrefit, Option.bind_eq_bind,
      Option.bind_some, Option.pure_def]
  · have hplace := place_eq_insert sound h
    simp only [RTree.place, grown.descend, grown.refitUp, Option.bind_eq_bind, Option.bind_some,
      Option.pure_def, Option.some.injEq] at hplace
    rw [← hplace]
    exact hsettled

/-- Insertion keeps two indexes the same but for names. -/
theorem Mirrors.insert (mirrors : Mirrors π plain t) (sound : Sound plain) (e : Entry) :
    ∃ π', Mirrors π' (plain.insert e) (t.insert e) := by
  have haccepts := mirrors.accepts_eq sound.linked e
  cases h : plain.accepts e with
  | false =>
    rw [insert_of_not_accepts h, insert_of_not_accepts (haccepts.trans h)]
    exact ⟨π, mirrors⟩
  | true =>
    obtain ⟨t', π', hplace, hmirrors⟩ := mirrors.place sound h
    rw [RTree.insert.eq_1 t, if_pos (haccepts.trans h), hplace]
    exact ⟨π', hmirrors⟩

end

end RTree

end SpatialSegment
