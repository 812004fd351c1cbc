import SpatialSegment.Proofs.RTree.History
import SpatialSegment.Proofs.Results

/-!
# Unions made on the way

Joining two boxes by `union` is right only if both are of one dimension, which nothing checks. Here
insertion is written a second time with a checked `merge` wherever it makes a union. On a sound
index no check fails: both insertions give the same index.

The growth of a box is not among these unions, because it asks for the covering box in any case.
-/

namespace SpatialSegment

namespace RTree

def gainChecked (a b : Box) : Except ArgumentFault Int := do
  let around ← a.merge b
  return areaRank (around.volume - a.volume - b.volume)

def seedPairsChecked (position : Nat) :
    List Box → Except ArgumentFault (List ((Nat × Nat) × Int))
  | [] => return []
  | a :: rest => do
    let pairs ← (rest.zipIdx (position + 1)).mapM fun b => do
      let waste ← gainChecked a b.1
      return ((position, b.2), waste)
    let later ← seedPairsChecked (position + 1) rest
    return pairs ++ later

def seedsChecked (boxes : List Box) : Except ArgumentFault (Option (Nat × Nat)) := do
  let pairs ← seedPairsChecked 0 boxes
  return (firstLeast (fun p q => p.2 < q.2) pairs).map Prod.fst

def Group.addChecked (g : Group) (position : Nat) (box : Box) : Except ArgumentFault Group := do
  let around ← g.box.merge box
  return ⟨g.members ++ [position], around⟩

def distributeChecked (minFill : Nat) :
    List (Box × Nat) → Group → Group → Except ArgumentFault (Group × Group)
  | [], first, second => return (first, second)
  | (box, position) :: rest, first, second =>
    if toFirst minFill (rest.length + 1) first second box then do
      let first ← first.addChecked position box
      distributeChecked minFill rest first second
    else do
      let second ← second.addChecked position box
      distributeChecked minFill rest first second

def quadraticSplitChecked (boxes : List Box) (max : Nat) :
    Except ArgumentFault (List Nat × List Nat) := do
  match ← seedsChecked boxes with
  | none => return (List.range boxes.length, [])
  | some (i, j) =>
    let rest := boxes.zipIdx.filter fun b => b.2 ≠ i ∧ b.2 ≠ j
    let (first, second) ← distributeChecked (max / 2) rest
      ⟨[i], boxes.getD i Box.fullSpace⟩ ⟨[j], boxes.getD j Box.fullSpace⟩
    return (first.members, second.members)

def Node.leafOfChecked (id : Nat) (parent : Option Nat) (entries : List Entry) :
    Except ArgumentFault Node := do
  let box ← Box.covering (entries.map Entry.box)
  return ⟨id, box, parent, .leaf entries⟩

namespace Arena

def refitChecked (a : Arena) (i : Nat) : Except ArgumentFault Arena :=
  match a[i]? with
  | none => return a
  | some n => do
    let box ← Box.covering (a.itemBoxes n)
    return a.set i { n with box }

def refitUpChecked (a : Arena) (i : Nat) : ExceptT ArgumentFault Option Arena :=
  match a[i]? with
  | none => ExceptT.mk none
  | some n =>
    match n.parent with
    | none => ExceptT.mk (some (a.refitChecked i))
    | some parent => do
      let b ← ExceptT.mk (some (a.refitChecked i))
      b |>.refitUpChecked parent
partial_fixpoint

def divideChecked (a : Arena) (max nextId i : Nat) (entries : List Entry) :
    Except ArgumentFault Arena := do
  let (first, second) ← quadraticSplitChecked (entries.map Entry.box) max
  let first ← Node.leafOfChecked nextId (some i) (first.filterMap (entries[·]?))
  let second ← Node.leafOfChecked (nextId + 1) (some i) (second.filterMap (entries[·]?))
  let directory (n : Node) : Node :=
    { n with id := nextId + 2, items := .directory [a.length, a.length + 1] }
  Arena.refitChecked (a.modify i directory ++ [first, second]) i

end Arena

def settleChecked (t : RTree) (i : Nat) : Except ArgumentFault RTree :=
  match t.nodes[i]? with
  | some ⟨_, _, _, .leaf entries⟩ =>
    if entries.length ≤ t.maxNodeSize then return t
    else do
      let nodes ← t.nodes.divideChecked t.maxNodeSize t.nextId i entries
      return { t with nodes, nextId := t.nextId + 3 }
  | _ => return t

/-- Insertion that fails where it would join two boxes of different dimensions. -/
def insertChecked (t : RTree) (e : Entry) : ExceptT ArgumentFault Option RTree :=
  if t.accepts e then do
    let i ← ExceptT.lift (t.nodes.descend e.box rootPosition)
    let nodes ← Arena.refitUpChecked (t.nodes.modify i (·.push e)) i
    ExceptT.mk (some (settleChecked { t with nodes, length := t.length + 1 } i))
  else return t

/-! ## Boxes of one dimension -/

section

variable {d : Nat}

theorem gainChecked_eq {a b : Box} (ha : a.dimension = d) (hb : b.dimension = d) :
    gainChecked a b = .ok (gain a b) := by
  rw [gainChecked, Box.merge_eq_union (.inr (ha.trans hb.symm))]
  rfl

theorem seedPairsChecked_eq {boxes : List Box} (dims : ∀ b ∈ boxes, b.dimension = d)
    (position : Nat) : seedPairsChecked position boxes = .ok (seedPairs position boxes) := by
  induction boxes generalizing position with
  | nil => rfl
  | cons a rest ih =>
    have ha := dims a List.mem_cons_self
    have hrest : ∀ b ∈ rest, b.dimension = d := fun b hb => dims b (List.mem_cons_of_mem _ hb)
    have hpair : ∀ b ∈ rest.zipIdx (position + 1),
        (do
          let waste ← gainChecked a b.1
          return ((position, b.2), waste)) =
        Except.ok (((position, b.2), gain a b.1) : (Nat × Nat) × Int) := fun b hb => by
      rw [gainChecked_eq ha (hrest b.1 (List.fst_mem_of_mem_zipIdx hb))]
      rfl
    rw [seedPairsChecked, mapM_ok hpair, ih hrest]
    rfl

theorem seedsChecked_eq {boxes : List Box} (dims : ∀ b ∈ boxes, b.dimension = d) :
    seedsChecked boxes = .ok (seeds boxes) := by
  rw [seedsChecked, seedPairsChecked_eq dims]
  rfl

theorem Group.addChecked_eq {g : Group} {box : Box} (hg : g.box.dimension = d)
    (hbox : box.dimension = d) (position : Nat) :
    g.addChecked position box = .ok (g.add position box) := by
  rw [Group.addChecked, Box.merge_eq_union (.inr (hg.trans hbox.symm))]
  rfl

theorem distributeChecked_eq {rest : List (Box × Nat)} (dims : ∀ b ∈ rest, b.1.dimension = d)
    {first second : Group} (hfirst : first.box.dimension = d) (hsecond : second.box.dimension = d)
    (minFill : Nat) :
    distributeChecked minFill rest first second = .ok (distribute minFill rest first second) := by
  induction rest generalizing first second with
  | nil => rfl
  | cons b rest ih =>
    obtain ⟨box, position⟩ := b
    have hbox : box.dimension = d := dims _ List.mem_cons_self
    have hrest : ∀ b ∈ rest, b.1.dimension = d := fun b hb => dims b (List.mem_cons_of_mem _ hb)
    rw [distributeChecked, distribute]
    split
    · rw [Group.addChecked_eq hfirst hbox]
      exact ih hrest (Box.dimension_union hfirst hbox) hsecond
    · rw [Group.addChecked_eq hsecond hbox]
      exact ih hrest hfirst (Box.dimension_union hsecond hbox)

theorem quadraticSplitChecked_eq {boxes : List Box} (dims : ∀ b ∈ boxes, b.dimension = d)
    (max : Nat) : quadraticSplitChecked boxes max = .ok (quadraticSplit boxes max) := by
  rw [quadraticSplitChecked, seedsChecked_eq dims, quadraticSplit]
  cases h : seeds boxes with
  | none => rfl
  | some pair =>
    obtain ⟨i, j⟩ := pair
    obtain ⟨hij, hj⟩ := seeds_lt h
    have hget : ∀ k < boxes.length, (boxes.getD k Box.fullSpace).dimension = d := fun k hk => by
      rw [List.getD_eq_getElem?_getD, List.getElem?_eq_getElem hk]
      exact dims _ (List.getElem_mem hk)
    have hrest : ∀ b ∈ boxes.zipIdx.filter fun b => decide (b.2 ≠ i ∧ b.2 ≠ j),
        b.1.dimension = d := fun b hb =>
      dims b.1 (List.fst_mem_of_mem_zipIdx (List.mem_of_mem_filter hb))
    have hfirst : (⟨[i], boxes.getD i Box.fullSpace⟩ : Group).box.dimension = d :=
      hget i (hij.trans hj)
    have hsecond : (⟨[j], boxes.getD j Box.fullSpace⟩ : Group).box.dimension = d := hget j hj
    have hdistribute := distributeChecked_eq hrest hfirst hsecond (max / 2)
    simp only [ok_bind, hdistribute]
    rfl

theorem Node.leafOfChecked_eq {es : List Entry} (dims : ∀ e ∈ es, e.box.dimension = d)
    (id : Nat) (parent : Option Nat) :
    Node.leafOfChecked id parent es = .ok (Node.leafOf id parent es) := by
  rw [Node.leafOfChecked, Box.covering_eq_unionAll (d := d) (by simpa using dims)]
  rfl

namespace Arena

variable {a : Arena} {i : Nat} {n : Node} {es : List Entry}

theorem refitChecked_eq (filled : Filled a d) (hi : a[i]? = some n)
    (hchildren : ∀ c ∈ n.children, (a.boxAt c).dimension = d) :
    a.refitChecked i = .ok (Arena.refit a i) := by
  have hcovering := Box.covering_eq_unionAll (filled.dimension_itemBoxes hi hchildren)
  simp only [refitChecked, hi, hcovering, ok_bind, Arena.refit, List.modify_eq_set_getElem?]
  rfl

theorem refitUpChecked_eq (linked : Linked a) (filled : Filled a d) (hi : i < a.length)
    (dims : ∀ j < a.length, j ≠ i → (a.boxAt j).dimension = d) :
    a.refitUpChecked i = ExceptT.mk ((a.refitUp i).map .ok) := by
  induction i using Nat.strongRecOn generalizing a with
  | ind i ih =>
    have hn : a[i]? = some a[i] := List.getElem?_eq_getElem hi
    have hchildren : ∀ c ∈ a[i].children, (a.boxAt c).dimension = d := fun c hc => by
      obtain ⟨hlt, hin⟩ := linked.child_lt hn hc
      exact dims c hin (by omega)
    have hrefit := refitChecked_eq filled hn hchildren
    have hshape := sameShape_refit a i
    rw [refitUpChecked]
    cases hp : a[i].parent with
    | none => simp only [hn, hp, hrefit, refitUp_of_root hn hp, Option.map_some]
    | some p =>
      obtain ⟨hpi, q, hq, hmem⟩ := linked.exists_parent hn hp
      have hrest := ih p hpi (hshape.linked linked) (hshape.filled filled)
        (by rw [← hshape.length_eq]; omega) fun j hj hjp => by
          by_cases hji : j = i
          · rw [hji]
            exact (tightAt_refit_self linked filled hn hchildren).dimension_boxAt
          · rw [boxAt_refit_of_ne hji]
            exact dims j (by rwa [hshape.length_eq]) hji
      simp only [hn, hp, hrefit, refitUp_of_parent hn hp]
      exact hrest

theorem divideChecked_eq (linked : Linked a) (filled : Filled a d) (hi : a[i]? = some n)
    (hn : n.items = .leaf es) (hlength : 2 ≤ es.length) (max nextId : Nat) :
    a.divideChecked max nextId i es = .ok (a.divide max nextId i es) := by
  obtain ⟨hxs, hys⟩ := filled.pick_quadraticSplit hi hn hlength max
  have hleaf : n.children = [] := by rw [Node.children, hn]
  obtain ⟨glinked, gfilled, xtight, ytight⟩ :=
    graft_leaves linked filled hi hleaf hxs hys (nextId + 2) nextId (nextId + 1)
  have hes : ∀ b ∈ es.map Entry.box, b.dimension = d := by
    have := filled.entries hi
    rw [Node.entries, hn] at this
    simpa using this
  have hrefit := refitChecked_eq gfilled (getElem?_graft_self hi) fun c hc => by
    obtain rfl | rfl : c = a.length ∨ c = a.length + 1 := by
      simpa [asDirectory, Node.children] using hc
    · exact xtight.dimension_boxAt
    · exact ytight.dimension_boxAt
  simp only [divideChecked, quadraticSplitChecked_eq hes, ok_bind]
  unfold pick at hxs hys hrefit
  rw [Node.leafOfChecked_eq hxs.2, ok_bind, Node.leafOfChecked_eq hys.2, ok_bind]
  exact hrefit

end Arena

theorem settleChecked_eq {t : RTree} (wf : WellFormed t) {i : Nat} {n : Node} {es : List Entry}
    (covered : Arena.Covered t.nodes d) (hi : t.nodes[i]? = some n) (hn : n.items = .leaf es) :
    t.settleChecked i = .ok (t.settle i) := by
  obtain ⟨id, box, parent, items⟩ := n
  subst hn
  rw [settleChecked, settle_of_leaf hi rfl]
  simp only [hi]
  split
  · rfl
  · have htwo := t.two_le
    rw [Arena.divideChecked_eq wf.linked covered.filled hi rfl (by omega)]
    rfl

/-- On a sound index no union joins boxes of different dimensions. -/
theorem Sound.insertChecked_eq {t : RTree} (sound : Sound t) (e : Entry) :
    t.insertChecked e = pure (t.insert e) := by
  rw [insertChecked]
  cases h : t.accepts e with
  | false => rw [insert_of_not_accepts h, if_neg Bool.false_ne_true]
  | true =>
    obtain ⟨i, b, grown⟩ := sound.exists_grown h
    obtain ⟨n, es, hi, hn⟩ := grown.leaf
    obtain ⟨m, es', hbi, hm, -⟩ := grown.grown
    obtain ⟨filled, tight⟩ := sound.push h hi hn
    have hlt : i < t.nodes.length := (List.getElem?_eq_some_iff.mp hi).1
    have hup := Arena.refitUpChecked_eq (sound.linked.push hi hn e) filled (by simpa using hlt)
      fun j hj hji => (tight j (by simpa using hj) hji).dimension_boxAt
    rw [grown.refitUp] at hup
    have hsettle := settleChecked_eq grown.wellFormed grown.covered hbi hm
    have hplace := place_eq_insert sound h
    simp only [place, grown.descend, grown.refitUp, Option.bind_eq_bind, Option.bind_some,
      Option.pure_def, Option.some.injEq] at hplace
    rw [if_pos rfl, grown.descend]
    change (Arena.refitUpChecked (t.nodes.modify i (·.push e)) i >>= fun nodes =>
      ExceptT.mk (some (settleChecked { t with nodes, length := t.length + 1 } i))) = _
    rw [hup, ← hplace]
    change ExceptT.mk (some (settleChecked { t with nodes := b, length := t.length + 1 } i)) = _
    rw [hsettle]
    rfl

end

end RTree

end SpatialSegment
