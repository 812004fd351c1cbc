import Mathlib.Data.Prod.Lex
import SpatialSegment.Proofs.RTree.Acceptance
import SpatialSegment.Proofs.RTree.Least
import SpatialSegment.Proofs.RTree.Occupancy

/-!
# The way down to a leaf and back up

On the way down each step leads to the first child that costs least, where costs are compared by the
growth of the box first and by the size of the node then. Positions grow from a node to its
children, so the way ends, at a leaf. The links lead back over the same nodes: from the leaf up
their boxes are computed anew, those of the children before those of the parents, and nothing else
is changed.
-/

namespace SpatialSegment

namespace RTree

/-- What decides between two costs: the growth, then the size. -/
def Cost.rank (cost : Cost) : ℤ ×ₗ ℕ := toLex (cost.growth, cost.size)

theorem Cost.before_iff (x y : Cost) : x.before y = true ↔ x.rank < y.rank := by
  simp [before, rank, Prod.Lex.toLex_lt_toLex]

namespace Arena

/-! ## The way down -/

/-- The comparison of what it costs that the box goes to the one position or to the other. -/
def compareCosts (a : Arena) (target : Box) (c d : Nat) : Ordering :=
  (compareAreas ((a.boxAt c).enlargement target) ((a.boxAt d).enlargement target)).then
    (compare (a.sizeAt c) (a.sizeAt d))

/-- The step to the first child that costs least: no child costs less than that one, and those
listed before it cost more. -/
def StepsTo (a : Arena) (target : Box) (i c : Nat) : Prop :=
  ∃ (n : Node) (k : Nat), a[i]? = some n ∧ n.children[k]? = some c ∧
    ∀ (l d : Nat), n.children[l]? = some d →
      a.compareCosts target c d ≠ .gt ∧ (l < k → a.compareCosts target c d = .lt)

/-- The positions on the way of a box from one position down to a leaf. -/
inductive Descent (a : Arena) (target : Box) : Nat → List Nat → Nat → Prop
  | leaf {i : Nat} {n : Node} {es : List Entry} (hi : a[i]? = some n) (hn : n.items = .leaf es) :
    Descent a target i [i] i
  | down {i c j : Nat} {path : List Nat} (step : a.StepsTo target i c)
    (rest : Descent a target c path j) : Descent a target i (i :: path) j

section

variable {a : Arena} {target : Box} {i j c d : Nat} {n : Node} {path : List Nat}

theorem compareCosts_eq_lt_iff :
    a.compareCosts target c d = .lt ↔ (a.cost target c).rank < (a.cost target d).rank := by
  simp [compareCosts, compareAreas_eq, Ordering.then_eq_lt, Cost.rank, cost,
    Prod.Lex.toLex_lt_toLex, compare_lt_iff_lt]

theorem compareCosts_ne_gt_iff :
    a.compareCosts target c d ≠ .gt ↔ (a.cost target c).rank ≤ (a.cost target d).rank := by
  have hgt : a.compareCosts target c d = .gt ↔
      (a.cost target d).rank < (a.cost target c).rank := by
    simp only [compareCosts, compareAreas_eq, Ordering.then_eq_gt, compare_gt_iff_gt,
      compare_eq_iff_eq, Cost.rank, cost, Prod.Lex.toLex_lt_toLex]
    rw [eq_comm]
  rw [Ne, hgt, not_lt]

/-- The child that is chosen is the first one that costs least. -/
theorem stepsTo_of_cheapest (hi : a[i]? = some n) (h : a.cheapest target n.children = some c) :
    a.StepsTo target i c := by
  obtain ⟨least, hleast, rfl⟩ := Option.map_eq_some_iff.mp h
  obtain ⟨front, back, heq, hfront, hback⟩ :=
    exists_of_firstLeast Cost.rank Cost.before_iff hleast
  have hcosts : ∀ l d, n.children[l]? = some d →
      (front ++ least :: back)[l]? = some (a.cost target d) := fun l d hd => by
    rw [← heq, List.getElem?_map, hd]
    rfl
  have hat : (n.children.map (a.cost target))[front.length]? = some least := by
    rw [heq, List.getElem?_append_right (Nat.le_refl _), Nat.sub_self]
    rfl
  rw [List.getElem?_map] at hat
  obtain ⟨c, hc, rfl⟩ := Option.map_eq_some_iff.mp hat
  refine ⟨n, front.length, hi, hc, fun l d hd => ?_⟩
  have hcost := hcosts l d hd
  rw [compareCosts_ne_gt_iff, compareCosts_eq_lt_iff]
  change (a.cost target c).rank ≤ _ ∧ (_ → (a.cost target c).rank < _)
  by_cases hlt : l < front.length
  · rw [List.getElem?_append_left hlt] at hcost
    have hless := hfront _ (List.mem_of_getElem? hcost)
    exact ⟨hless.le, fun _ => hless⟩
  · rw [List.getElem?_append_right (by omega)] at hcost
    refine ⟨?_, fun h => absurd h hlt⟩
    rcases List.mem_cons.mp (List.mem_of_getElem? hcost) with hsame | hmem
    · rw [hsame]
    · exact hback _ hmem

/-- Where no directory is empty, a box finds its way to a leaf. -/
theorem exists_descent (linked : Linked a)
    (listing : ∀ {i : Nat} {n : Node}, a[i]? = some n → n.items ≠ .directory [])
    (target : Box) (hi : i < a.length) :
    ∃ path j, a.descend target i = some j ∧ Descent a target i path j := by
  induction h : a.length - i using Nat.strongRecOn generalizing i with
  | ind k ih =>
    have hn : a[i]? = some a[i] := List.getElem?_eq_getElem hi
    cases hitems : a[i].items with
    | leaf es => exact ⟨[i], i, descend_of_leaf hn hitems target, .leaf hn hitems⟩
    | directory cs =>
      have hne : a[i].children ≠ [] := fun hnil => by
        rw [Node.children, hitems] at hnil
        exact listing hn (hnil ▸ hitems)
      obtain ⟨c, hc⟩ := exists_cheapest (a := a) hne target
      obtain ⟨hlt, hin⟩ := linked.child_lt hn (cheapest_mem hc)
      obtain ⟨path, j, hj, rest⟩ := ih (a.length - c) (by omega) hin rfl
      exact ⟨i :: path, j, (descend_of_cheapest hn hc).trans hj,
        .down (stepsTo_of_cheapest hn hc) rest⟩

theorem Descent.exists_leaf (h : Descent a target i path j) :
    ∃ n es, a[j]? = some n ∧ n.items = .leaf es := by
  induction h with
  | leaf hi hn => exact ⟨_, _, hi, hn⟩
  | down _ _ ih => exact ih

/-- The nodes on the way are below each other. -/
theorem Descent.chain (h : Descent a target i path j) : ∃ rest, path = i :: rest ∧
    path.IsChain (fun p c => c ∈ a.childrenAt p) ∧ path.getLast? = some j := by
  induction h with
  | leaf hi hn => exact ⟨[], rfl, .singleton _, rfl⟩
  | @down i c j path step _ ih =>
    obtain ⟨n, k, hi, hk, -⟩ := step
    obtain ⟨rest, rfl, hchain, hlast⟩ := ih
    have hlisted : c ∈ a.childrenAt i := childrenAt_eq hi ▸ List.mem_of_getElem? hk
    exact ⟨c :: rest, rfl, .cons_cons hlisted hchain, by rwa [List.getLast?_cons_cons]⟩

/-! ## The way up -/

/-- The boxes at the positions computed anew, from the last position to the first. -/
def refitAll (a : Arena) (path : List Nat) : Arena :=
  path.foldr (fun i b => Arena.refit b i) a

/-- The second arena is the first with the boxes on a path computed anew: each of them is the one
around the boxes that its node then lists, and all else is as it was. -/
structure RefittedOn (path : List Nat) (a b : Arena) : Prop where
  onPath : ∀ i ∈ path, ∃ n, a[i]? = some n ∧
    b[i]? = some { n with box := Box.unionAll (b.itemBoxes n) }
  others : ∀ i ∉ path, b[i]? = a[i]?
  sameShape : SameShape a b

theorem refitAll_cons (a : Arena) (i : Nat) (path : List Nat) :
    a.refitAll (i :: path) = Arena.refit (a.refitAll path) i := rfl

theorem sameShape_refitAll (a : Arena) (path : List Nat) : SameShape a (a.refitAll path) := by
  induction path with
  | nil => exact rfl
  | cons i path ih => exact ih.trans (sameShape_refit _ i)

theorem childrenAt_congr {b : Arena} (h : a.map Node.children = b.map Node.children) (i : Nat) :
    a.childrenAt i = b.childrenAt i := by
  have hmap := congrArg (·[i]?) h
  simp only [List.getElem?_map] at hmap
  rw [childrenAt, childrenAt, hmap]

theorem SameShape.childrenAt_eq {b : Arena} (h : SameShape a b) (i : Nat) :
    a.childrenAt i = b.childrenAt i :=
  childrenAt_congr (h.map_eq fun _ => rfl) i

theorem itemBoxes_refit_of_notMem {b : Arena} (h : i ∉ n.children) :
    (Arena.refit b i).itemBoxes n = b.itemBoxes n := by
  have hboxes := itemBoxes_congr (f := id) (a := b) (b := Arena.refit b i) (m := n) rfl
    fun c hc => boxAt_refit_of_ne fun hci => h (hci ▸ hc)
  simpa using hboxes

theorem Linked.pairwise_lt (linked : Linked a)
    (chain : path.IsChain (fun p c => c ∈ a.childrenAt p)) : path.Pairwise (· < ·) := by
  refine List.isChain_iff_pairwise.mp (chain.imp fun p c hc => ?_)
  obtain ⟨n, hn, hc⟩ := exists_node_of_mem_childrenAt hc
  exact (linked.child_lt hn hc).1

/-- A node is computed anew after those below it, and they do not list it. -/
theorem Linked.refittedOn_refitAll (linked : Linked a)
    (chain : path.IsChain (fun p c => c ∈ a.childrenAt p)) (inside : ∀ i ∈ path, i < a.length) :
    RefittedOn path a (a.refitAll path) := by
  have hshape := sameShape_refitAll a path
  induction path with
  | nil => exact ⟨by simp, fun _ _ => rfl, hshape⟩
  | cons i path ih =>
    obtain ⟨hi, inside⟩ := List.forall_mem_cons.mp inside
    obtain ⟨hbelow, -⟩ := List.pairwise_cons.mp (linked.pairwise_lt chain)
    obtain ⟨onPath, others, -⟩ := ih chain.tail inside (sameShape_refitAll a path)
    have hnot : ∀ {k : Nat} {n : Node}, a[k]? = some n → i ≤ k → i ∉ n.children :=
      fun hk hik hmem => by
        have hlt := (linked.child_lt hk hmem).1
        omega
    refine ⟨fun k hk => ?_, fun k hk => ?_, hshape⟩
    · rcases List.mem_cons.mp hk with rfl | hk
      · have hself : a[k]? = some a[k] := List.getElem?_eq_getElem hi
        have hkeep := others k fun hmem => Nat.lt_irrefl k (hbelow k hmem)
        refine ⟨a[k], hself, ?_⟩
        rw [refitAll_cons, getElem?_refit_self (hkeep.trans hself),
          itemBoxes_refit_of_notMem (hnot hself (Nat.le_refl k))]
      · obtain ⟨n, hn, hb⟩ := onPath k hk
        have hik := hbelow k hk
        refine ⟨n, hn, ?_⟩
        rw [refitAll_cons, getElem?_refit_of_ne (by omega),
          itemBoxes_refit_of_notMem (hnot hn hik.le), hb]
    · obtain ⟨hki, hk⟩ := not_or.mp (List.mem_cons.not.mp hk)
      rw [refitAll_cons, getElem?_refit_of_ne hki, others k hk]

theorem Linked.lt_length_of_chain (linked : Linked a) {rest : List Nat} (hi : i < a.length)
    (chain : (i :: rest).IsChain (fun p c => c ∈ a.childrenAt p)) :
    ∀ k ∈ i :: rest, k < a.length := by
  induction rest generalizing i with
  | nil => simpa using hi
  | cons c rest ih =>
    obtain ⟨hc, chain⟩ := List.isChain_cons_cons.mp chain
    obtain ⟨n, hn, hc⟩ := exists_node_of_mem_childrenAt hc
    exact List.forall_mem_cons.mpr ⟨hi, ih (linked.child_lt hn hc).2 chain⟩

/-- The links lead from the last position of a path back over all of it. -/
theorem Linked.refitUp_of_chain (linked : Linked a) {rest : List Nat}
    (chain : (i :: rest).IsChain (fun p c => c ∈ a.childrenAt p))
    (hlast : (i :: rest).getLast? = some j) : a.refitUp j = (a.refitAll rest).refitUp i := by
  induction rest generalizing i with
  | nil =>
    cases hlast
    rfl
  | cons c rest ih =>
    obtain ⟨hc, chain⟩ := List.isChain_cons_cons.mp chain
    rw [List.getLast?_cons_cons] at hlast
    have hshape := sameShape_refitAll a rest
    obtain ⟨n, hn, hmem⟩ := exists_node_of_mem_childrenAt (hshape.childrenAt_eq i ▸ hc)
    obtain ⟨-, m, hm, hparent⟩ := (hshape.linked linked).down hn c hmem
    rw [ih chain hlast, refitUp_of_parent hm hparent, refitAll_cons]

/-- From the end of a way from the root the boxes on that way are computed anew. -/
theorem Linked.exists_refittedOn (linked : Linked a) {rest : List Nat}
    (chain : (rootPosition :: rest).IsChain (fun p c => c ∈ a.childrenAt p))
    (hlast : (rootPosition :: rest).getLast? = some j) :
    ∃ b, a.refitUp j = some b ∧ RefittedOn (rootPosition :: rest) a b := by
  have inside := linked.lt_length_of_chain linked.pos chain
  obtain ⟨r, hr, hnone⟩ := ((sameShape_refitAll a rest).linked linked).root
  refine ⟨a.refitAll (rootPosition :: rest), ?_, linked.refittedOn_refitAll chain inside⟩
  rw [linked.refitUp_of_chain chain hlast, refitUp_of_root hr hnone, refitAll_cons]

end

/-! ## The order in which children are listed -/

/-- Children are listed in the order of their positions. -/
def Ascending (a : Arena) : Prop :=
  ∀ cs ∈ a.map Node.children, cs.Pairwise (· < ·)

section

variable {a b : Arena} {i : Nat} {n : Node} {es : List Entry}

theorem SameShape.ascending (h : SameShape a b) (ascending : Ascending a) : Ascending b := by
  rwa [Ascending, ← h.map_eq fun _ => rfl]

/-- Entries pushed onto a leaf change no link. -/
theorem links_modify_push (hi : a[i]? = some n) (hn : n.items = .leaf es) (more : List Entry) :
    (a.modify i fun n => more.foldl Node.push n).map Node.links = a.map Node.links := by
  refine map_modify_of_eq fun m hm => ?_
  rw [hi] at hm
  cases hm
  clear hi
  induction more generalizing n es with
  | nil => rfl
  | cons e more ih =>
    have hpush : n.push e = { n with items := .leaf (es ++ [e]) } := by
      rw [Node.push, hn]
    have hitems : (n.push e).items = .leaf (es ++ [e]) := by rw [hpush]
    rw [List.foldl_cons, ih hitems, hpush, Node.links, Node.links, Node.children, Node.children,
      hn]

theorem children_of_links (h : a.map Node.links = b.map Node.links) :
    a.map Node.children = b.map Node.children := by
  have hsnd := congrArg (List.map Prod.snd) h
  rwa [List.map_map, List.map_map] at hsnd

theorem Ascending.push (ascending : Ascending a) (hi : a[i]? = some n) (hn : n.items = .leaf es)
    (e : Entry) : Ascending (a.modify i (·.push e)) := by
  have hsame := children_of_links (links_modify_push hi hn [e])
  simp only [List.foldl_cons, List.foldl_nil] at hsame
  rwa [Ascending, hsame]

theorem Ascending.divide (ascending : Ascending a) (hi : a[i]? = some n) (max nextId : Nat)
    (es : List Entry) : Ascending (a.divide max nextId i es) := by
  rw [divide_eq]
  apply (sameShape_refit _ _).ascending
  intro cs hcs
  obtain ⟨m, hm, rfl⟩ := List.mem_map.mp hcs
  obtain ⟨j, hj⟩ := List.mem_iff_getElem?.mp hm
  rcases getElem?_graft_cases hi hj with ⟨hold, -⟩ | ⟨-, rfl⟩ | ⟨-, rfl⟩ | ⟨-, rfl⟩
  · exact ascending _ (List.mem_map_of_mem (List.mem_of_getElem? hold))
  · exact List.pairwise_pair.mpr (Nat.lt_succ_self _)
  · exact .nil
  · exact .nil

end

end Arena

section

variable {t : RTree}

theorem Sound.ascending_insert (sound : Sound t) (ascending : Arena.Ascending t.nodes)
    (e : Entry) : Arena.Ascending (t.insert e).nodes := by
  cases haccepts : t.accepts e with
  | false => rwa [insert_of_not_accepts haccepts]
  | true =>
    obtain ⟨i, b, grown⟩ := sound.exists_grown haccepts
    obtain ⟨n, es, hi, hn⟩ := grown.leaf
    obtain ⟨m, fuller, hb, hm, -⟩ := grown.grown
    have hshape := (sound.linked.push hi hn e).sameShape_refitUp grown.refitUp
    have hrefit := hshape.ascending (ascending.push hi hn e)
    have hplace := place_eq_insert sound haccepts
    simp only [place, grown.descend, grown.refitUp, Option.bind_eq_bind, Option.bind_some,
      Option.pure_def, Option.some.injEq] at hplace
    rw [← hplace, settle_of_leaf hb hm]
    split
    · exact hrefit
    · exact hrefit.divide hb _ _ _

theorem Sound.ascending_foldl_insert (sound : Sound t) (ascending : Arena.Ascending t.nodes)
    (entries : List Entry) : Arena.Ascending (entries.foldl RTree.insert t).nodes := by
  induction entries generalizing t with
  | nil => exact ascending
  | cons e entries ih => exact ih (sound.insert e).1 (sound.ascending_insert ascending e)

/-- Whatever entries a leaf at the end of a way has got, the boxes on the way are computed anew. -/
theorem Sound.exists_refittedOn (sound : Sound t) {target : Box} {path : List Nat} {leaf : Nat}
    (descent : t.nodes.Descent target rootPosition path leaf) (more : List Entry) :
    ∃ b, Arena.refitUp (t.nodes.modify leaf fun n => more.foldl Node.push n) leaf = some b ∧
      Arena.RefittedOn path (t.nodes.modify leaf fun n => more.foldl Node.push n) b := by
  obtain ⟨n, es, hn, hleaf⟩ := descent.exists_leaf
  obtain ⟨rest, rfl, chain, hlast⟩ := descent.chain
  have hlinks := Arena.links_modify_push hn hleaf more
  have hchildren := Arena.childrenAt_congr (Arena.children_of_links hlinks)
  refine (sound.linked.of_links hlinks.symm).exists_refittedOn ?_ hlast
  exact chain.imp fun p c hc => by rwa [hchildren p]

/-- The way back up asserts nothing that fails when the entry is one that the index takes. -/
theorem Sound.exists_checkedRefitUp (sound : Sound t) {e : Entry} (h : t.accepts e = true)
    {leaf : Nat} (hleaf : t.nodes.descend e.box rootPosition = some leaf) :
    ∃ b, Arena.refitUp (t.nodes.modify leaf (·.push e)) leaf = some b ∧
      Arena.checkedRefitUp (t.nodes.modify leaf (·.push e)) leaf = pure b := by
  obtain ⟨i, b, grown⟩ := sound.exists_grown h
  obtain rfl := Option.some.inj (hleaf.symm.trans grown.descend)
  obtain ⟨n, es, hn, hitems⟩ := grown.leaf
  obtain ⟨filled, tight⟩ := sound.push h hn hitems
  refine ⟨b, grown.refitUp, ?_⟩
  refine Arena.checkedRefitUp_eq (sound.linked.push hn hitems e) filled ?_ ?_ grown.refitUp
  · rw [List.length_modify]
    exact (List.getElem?_eq_some_iff.mp hn).1
  · intro k hk hki
    rw [List.length_modify] at hk
    exact (tight k hk hki).dimension_boxAt

end

/-- In an index made by insertion every box finds its way from the root to a leaf, each step to the
first child that costs least, where the children are listed in the order of their positions. From
that leaf, with any more entries in it, the boxes on this way are computed anew and nothing else is
changed. The machine takes the same way, and comes back up with an entry that the index takes. -/
theorem descent_after_calls (maxNodeSize : Nat) (two_le : 2 ≤ maxNodeSize) (calls : List Call)
    (target : Box) :
    let t := runCalls (empty maxNodeSize two_le) calls
    (∀ n ∈ t.nodes, n.children.Pairwise (· < ·)) ∧
      ∃ path leaf, t.nodes.descend target rootPosition = some leaf ∧
        t.nodes.checkedDescend target rootPosition = pure leaf ∧
        t.nodes.Descent target rootPosition path leaf ∧
        (∀ more : List Entry, ∃ b,
          Arena.refitUp (t.nodes.modify leaf fun n => more.foldl Node.push n) leaf = some b ∧
            Arena.RefittedOn path (t.nodes.modify leaf fun n => more.foldl Node.push n) b) ∧
        ∀ e : Entry, e.box = target → t.accepts e = true → ∃ b,
          Arena.refitUp (t.nodes.modify leaf (·.push e)) leaf = some b ∧
            Arena.checkedRefitUp (t.nodes.modify leaf (·.push e)) leaf = pure b := by
  intro t
  have hempty := sound_empty maxNodeSize two_le
  have ht : t = (calls.flatMap Call.entries).foldl RTree.insert (empty maxNodeSize two_le) :=
    runCalls_eq _ _
  have sound : Sound t := ht ▸ (hempty.foldl_insert _).1
  have ascending : Arena.Ascending t.nodes :=
    ht ▸ hempty.ascending_foldl_insert (by simp [Arena.Ascending, empty, Node.children]) _
  obtain ⟨path, leaf, hleaf, descent⟩ :=
    Arena.exists_descent sound.linked sound.listing target sound.linked.pos
  refine ⟨fun n hn => ascending _ (List.mem_map_of_mem hn), path, leaf, hleaf,
    Arena.checkedDescend_eq sound.linked sound.linked.pos hleaf, descent,
    sound.exists_refittedOn descent, ?_⟩
  rintro e rfl haccepts
  exact sound.exists_checkedRefitUp haccepts hleaf

/-- The index of three points is a directory of two leaves; a fourth point goes to one of them. -/
theorem descent_after_three :
    let point (bits : UInt64) (h : (⟨bits⟩ : Coord) ≤ ⟨bits⟩) : Box := ⟨[⟨⟨bits⟩, ⟨bits⟩, h⟩]⟩
    let entries : List Entry := [⟨point 0 (by decide), 0⟩,
      ⟨point 0x3ff0000000000000 (by decide), 10⟩, ⟨point 0x4000000000000000 (by decide), 20⟩]
    let e : Entry := ⟨point 0x4008000000000000 (by decide), 30⟩
    let t := runCalls (empty 2 (by decide)) [.insertAll entries]
    t.accepts e = true ∧ ∃ leaf b, t.nodes.descend e.box rootPosition = some leaf ∧
      Arena.refitUp (t.nodes.modify leaf (·.push e)) leaf = some b ∧
      Arena.checkedRefitUp (t.nodes.modify leaf (·.push e)) leaf = pure b := by
  intro point entries e t
  have hempty := holds_empty 2 (by decide)
  have haccepts : t.accepts e = true := by
    have holds := hempty.foldl_insert entries
    rw [List.nil_append, hempty.sound.taken_eq_alike hempty.dimension entries,
      ← insertAll_eq] at holds
    exact holds.accepts_iff.mpr ⟨by decide, by decide⟩
  obtain ⟨-, path, leaf, hleaf, -, -, -, hup⟩ :=
    descent_after_calls 2 (by decide) [.insertAll entries] e.box
  obtain ⟨b, hb, hchecked⟩ := hup e rfl haccepts
  exact ⟨haccepts, leaf, b, hleaf, hb, hchecked⟩

end RTree

end SpatialSegment
