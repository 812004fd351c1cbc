import SpatialSegment.Proofs.Checked.Split
import SpatialSegment.Proofs.RTree.History

/-!
# Entries are inserted without a crash

The ways down to a leaf and back up to the root look up nodes by their positions, boxes are joined
on the way, and a division takes three numbers, each of which must have four bytes. In a sound index
every position leads to a node and all boxes that meet are of one dimension. The numbers last for as
long as the index has less than a third as many entries as there are numbers.
-/

namespace SpatialSegment

open Machine

namespace RTree

/-- The number behind a number. -/
def numberBehind (id : Nat) : Machine Nat :=
  if id + 1 < Word.limit 4 then return id + 1 else throw .overflow

theorem numberBehind_eq {id : Nat} (h : id + 1 < Word.limit 4) :
    numberBehind id = pure (id + 1) :=
  if_pos h

def Node.checkedLeafOf (id : Nat) (parent : Option Nat) (entries : List Entry) : Machine Node := do
  return ⟨id, ← Box.checkedUnionAll (entries.map Entry.box), parent, .leaf entries⟩

theorem Node.checkedLeafOf_eq {entries : List Entry} {d : Nat}
    (dims : ∀ e ∈ entries, e.box.dimension = d) (id : Nat) (parent : Option Nat) :
    Node.checkedLeafOf id parent entries = pure (Node.leafOf id parent entries) := by
  rw [checkedLeafOf, Box.checkedUnionAll_eq (List.forall_mem_map.mpr dims), pure_bind, leafOf]

namespace Arena

def checkedCost (a : Arena) (target : Box) (i : Nat) : Machine Cost := do
  let n ← item a i
  return ⟨areaRank (← n.box.checkedEnlargement target), n.size, i⟩

def checkedDescend (a : Arena) (target : Box) (i : Nat) : Machine Nat := do
  let n ← item a i
  let costs ← n.children.mapM (a.checkedCost target)
  match firstLeast Cost.before costs with
  | none => return i
  | some least => a |>.checkedDescend target least.position
partial_fixpoint

def checkedItemBoxes (a : Arena) (n : Node) : Machine (List Box) :=
  match n.items with
  | .leaf entries => return entries.map Entry.box
  | .directory children => children.mapM fun c => do return (← item a c).box

def checkedRefit (a : Arena) (i : Nat) : Machine Arena := do
  let n ← item a i
  let box ← Box.checkedUnionAll (← a.checkedItemBoxes n)
  return a.modify i fun n => { n with box }

def checkedRefitUp (a : Arena) (i : Nat) : Machine Arena := do
  let n ← item a i
  let refitted ← a.checkedRefit i
  match n.parent with
  | none => return refitted
  | some parent => refitted |>.checkedRefitUp parent
partial_fixpoint

/-- The leaf at a position replaced by a directory of two leaves, and the next number. -/
def checkedDivide (a : Arena) (max nextId i : Nat) (entries : List Entry) :
    Machine (Arena × Nat) := do
  let behind ← add a.length 1
  let parts ← checkedQuadraticSplit (entries.map Entry.box) max
  let firstEntries ← parts.1.mapM (item entries)
  let secondEntries ← parts.2.mapM (item entries)
  let secondId ← numberBehind nextId
  let first ← Node.checkedLeafOf nextId (some i) firstEntries
  let directoryId ← numberBehind secondId
  let second ← Node.checkedLeafOf secondId (some i) secondEntries
  let next ← numberBehind directoryId
  let divided := a.modify i (asDirectory directoryId [a.length, behind]) ++ [first, second]
  return (← checkedRefit divided i, next)

variable {a b : Arena} {d i j : Nat} {n : Node} {target : Box}

/-! ## The way down -/

theorem checkedCost_eq (hi : i < a.length) :
    a.checkedCost target i = pure (a.cost target i) := by
  have hn : a[i]? = some a[i] := List.getElem?_eq_getElem hi
  rw [checkedCost, item_eq hn, pure_bind, Box.checkedEnlargement_eq, pure_bind, cost, boxAt, sizeAt,
    hn]
  rfl

/-- Positions grow on the way down, so it comes to its end. -/
theorem checkedDescend_eq (linked : Linked a) (hi : i < a.length)
    (h : a.descend target i = some j) : a.checkedDescend target i = pure j := by
  induction hk : a.length - i using Nat.strongRecOn generalizing i with
  | ind k ih =>
    have hn : a[i]? = some a[i] := List.getElem?_eq_getElem hi
    have hcosts : a[i].children.mapM (a.checkedCost target) =
        pure (a[i].children.map (a.cost target)) :=
      mapM_eq fun c hc => checkedCost_eq (linked.child_lt hn hc).2
    rw [checkedDescend, item_eq hn, pure_bind, hcosts, pure_bind]
    cases hleast : firstLeast Cost.before (a[i].children.map (a.cost target)) with
    | none =>
      have hcheapest : a.cheapest target a[i].children = none := by
        rw [cheapest, hleast]
        rfl
      rw [descend] at h
      simp only [hn, hcheapest, Option.some.injEq] at h
      rw [h]
    | some least =>
      have hcheapest : a.cheapest target a[i].children = some least.position := by
        rw [cheapest, hleast]
        rfl
      obtain ⟨hlt, hin⟩ := linked.child_lt hn (cheapest_mem hcheapest)
      rw [descend_of_cheapest hn hcheapest] at h
      exact ih (a.length - least.position) (by omega) hin h rfl

/-! ## The way up -/

theorem checkedItemBoxes_eq (linked : Linked a) (hi : a[i]? = some n) :
    a.checkedItemBoxes n = pure (a.itemBoxes n) := by
  have hchildren := fun c (hc : c ∈ n.children) => (linked.child_lt hi hc).2
  unfold Node.children at hchildren
  unfold checkedItemBoxes itemBoxes
  cases hn : n.items with
  | leaf entries => rfl
  | directory children =>
    simp only [hn] at hchildren ⊢
    refine mapM_eq fun c hc => ?_
    obtain ⟨m, hm⟩ : ∃ m, a[c]? = some m := ⟨_, List.getElem?_eq_getElem (hchildren c hc)⟩
    rw [item_eq hm, pure_bind, boxAt_eq hm]

/-- The box around what a node lists is computed anew where all of that is of one dimension. -/
theorem checkedRefit_eq (linked : Linked a) (filled : Filled a d) (hi : a[i]? = some n)
    (dims : ∀ c ∈ n.children, (a.boxAt c).dimension = d) :
    a.checkedRefit i = pure (Arena.refit a i) := by
  rw [checkedRefit, item_eq hi, pure_bind, checkedItemBoxes_eq linked hi, pure_bind,
    Box.checkedUnionAll_eq (filled.dimension_itemBoxes hi dims), pure_bind, refit]
  congr 1
  apply List.ext_getElem?
  intro k
  rw [List.getElem?_modify, List.getElem?_modify]
  split
  · rename_i hik
    rw [← hik, hi]
    rfl
  · rfl

theorem dimension_boxAt_refit (linked : Linked a) (filled : Filled a d) (hi : a[i]? = some n)
    (dims : ∀ k < a.length, k ≠ i → (a.boxAt k).dimension = d) {k : Nat} (hk : k < a.length) :
    ((Arena.refit a i).boxAt k).dimension = d := by
  by_cases hki : k = i
  · subst hki
    rw [boxAt_eq (getElem?_refit_self hi)]
    refine Box.dimension_unionAll (filled.dimension_itemBoxes hi fun c hc => ?_)
      (filled.itemBoxes_ne_nil hi)
    obtain ⟨hlt, hin⟩ := linked.child_lt hi hc
    exact dims c hin (by omega)
  · rw [boxAt_refit_of_ne hki]
    exact dims k hk hki

/-- Positions shrink on the way up. Only the box at the position itself may be of another
dimension, and it is computed anew first. -/
theorem checkedRefitUp_eq (linked : Linked a) (filled : Filled a d) (hi : i < a.length)
    (dims : ∀ k < a.length, k ≠ i → (a.boxAt k).dimension = d) (h : a.refitUp i = some b) :
    a.checkedRefitUp i = pure b := by
  induction i using Nat.strongRecOn generalizing a with
  | ind i ih =>
    have hn : a[i]? = some a[i] := List.getElem?_eq_getElem hi
    have hshape := sameShape_refit a i
    rw [checkedRefitUp, item_eq hn, pure_bind, checkedRefit_eq linked filled hn fun c hc => by
      obtain ⟨hlt, hin⟩ := linked.child_lt hn hc
      exact dims c hin (by omega), pure_bind]
    cases hparent : a[i].parent with
    | none =>
      rw [refitUp_of_root hn hparent, Option.some.injEq] at h
      rw [h]
    | some p =>
      obtain ⟨hpi, -⟩ := linked.exists_parent hn hparent
      rw [refitUp_of_parent hn hparent] at h
      refine ih p hpi (hshape.linked linked) (hshape.filled filled) ?_ (fun k hk _ => ?_) h
      · rw [← hshape.length_eq]
        omega
      · rw [← hshape.length_eq] at hk
        exact dimension_boxAt_refit linked filled hn dims hk

/-! ## A leaf divided -/

theorem mapM_item {entries : List Entry} {positions : List Nat}
    (inside : ∀ k ∈ positions, k < entries.length) :
    positions.mapM (item entries) = pure (pick entries positions) := by
  induction positions with
  | nil => rfl
  | cons k positions ih =>
    obtain ⟨hk, inside⟩ := List.forall_mem_cons.mp inside
    have he : entries[k]? = some entries[k] := List.getElem?_eq_getElem hk
    rw [List.mapM_cons, item_eq he, pure_bind, ih inside, pure_bind, pick, pick,
      List.filterMap_cons, he]

/-- A leaf is divided without a crash as long as there are three numbers more. -/
theorem checkedDivide_eq (linked : Linked a) (filled : Filled a d) {entries : List Entry}
    (hi : a[i]? = some n) (hn : n.items = .leaf entries) (hlength : 2 ≤ entries.length)
    (short : a.length + 1 < Word.limit 8) (few : entries.length + 2 < Word.limit 8) (max : Nat)
    {nextId : Nat} (numbers : nextId + 3 < Word.limit 4) :
    a.checkedDivide max nextId i entries = pure (a.divide max nextId i entries, nextId + 3) := by
  have hleaf : n.children = [] := by rw [Node.children, hn]
  have hdims : ∀ e ∈ entries, e.box.dimension = d := by
    have hentries := filled.entries hi
    rwa [Node.entries, hn] at hentries
  have hboxes : 2 ≤ (entries.map Entry.box).length := by rwa [List.length_map]
  obtain ⟨hperm, -, -⟩ := quadraticSplit_perm hboxes max
  have inside : ∀ k ∈ (quadraticSplit (entries.map Entry.box) max).1 ++
      (quadraticSplit (entries.map Entry.box) max).2, k < entries.length := by
    intro k hk
    have hmem := hperm.subset hk
    rwa [List.mem_range, List.length_map] at hmem
  obtain ⟨hfirst, hsecond⟩ := List.forall_mem_append.mp inside
  obtain ⟨hxs, hys⟩ := filled.pick_quadraticSplit hi hn hlength max
  obtain ⟨glinked, gfilled, xtight, ytight⟩ :=
    graft_leaves linked filled hi hleaf hxs hys (nextId + 2) nextId (nextId + 1)
  have hrefit : checkedRefit (graft a i (nextId + 2)
      (Node.leafOf nextId (some i) (pick entries (quadraticSplit (entries.map Entry.box) max).1))
      (Node.leafOf (nextId + 1) (some i)
        (pick entries (quadraticSplit (entries.map Entry.box) max).2))) i =
        pure (a.divide max nextId i entries) := by
    rw [divide_eq]
    refine checkedRefit_eq glinked gfilled (getElem?_graft_self hi) ?_
    refine List.forall_mem_cons.mpr ⟨xtight.dimension_boxAt, ?_⟩
    exact List.forall_mem_singleton.mpr ytight.dimension_boxAt
  rw [checkedDivide, add_eq short, pure_bind,
    checkedQuadraticSplit_eq (List.forall_mem_map.mpr hdims) (by rwa [List.length_map]) max,
    pure_bind, mapM_item hfirst, pure_bind, mapM_item hsecond, pure_bind,
    numberBehind_eq (by omega), pure_bind, Node.checkedLeafOf_eq hxs.2, pure_bind,
    numberBehind_eq (by omega), pure_bind, Node.checkedLeafOf_eq hys.2, pure_bind,
    numberBehind_eq (by omega), pure_bind]
  exact congrArg (· >>= fun arena => pure (arena, nextId + 3)) hrefit

end Arena

/-! ## Insertion -/

def checkedSettle (t : RTree) (i : Nat) : Machine RTree := do
  match (← item t.nodes i).items with
  | .leaf entries =>
    if entries.length ≤ t.maxNodeSize then return t
    else
      let (nodes, nextId) ← t.nodes.checkedDivide t.maxNodeSize t.nextId i entries
      return { t with nodes, nextId }
  | .directory _ => return t

def checkedAccepts (t : RTree) (e : Entry) : Machine Bool := do
  if e.box.isFullSpace then return false
  else
    let root ← item t.nodes rootPosition
    return root.box.isFullSpace || root.box.dimension == e.box.dimension

def checkedPlace (t : RTree) (e : Entry) : Machine RTree := do
  let i ← t.nodes.checkedDescend e.box rootPosition
  let _ ← item t.nodes i
  let length ← add t.length 1
  let nodes ← Arena.checkedRefitUp (t.nodes.modify i (·.push e)) i
  checkedSettle { t with nodes, length } i

/-- The index with those of the entries that it takes, and whether these and those before are all.
-/
def checkedInsertAll (t : RTree) (all : Bool) : List Entry → Machine (RTree × Bool)
  | [] => return (t, all)
  | e :: entries => do
    if ← t.checkedAccepts e then checkedInsertAll (← t.checkedPlace e) all entries
    else t.checkedInsertAll false entries

variable {t : RTree} {e : Entry}

theorem checkedAccepts_eq (linked : Arena.Linked t.nodes) (e : Entry) :
    t.checkedAccepts e = pure (t.accepts e) := by
  obtain ⟨root, hroot, -⟩ := linked.root
  rw [checkedAccepts, accepts, dimension?, box, Arena.boxAt_eq hroot]
  cases e.box.isFullSpace with
  | true => rfl
  | false =>
    rw [if_neg Bool.false_ne_true, item_eq hroot, pure_bind]
    cases root.box.isFullSpace with
    | true => rfl
    | false => simp

theorem length_entries_le_of_mem {a : Arena} {n : Node} (h : n ∈ a) :
    n.entries.length ≤ (a.flatMap Node.entries).length := by
  rw [List.flatMap_def]
  exact (List.sublist_flatten_of_mem (List.mem_map_of_mem h)).length_le

/-- The leaf that the entry has been put on is put right. -/
theorem Grown.checkedSettle_eq {i : Nat} {b : Arena} (grown : Grown t e i b)
    (short : t.length + 3 < Word.limit 8) (numbers : t.nextId + 3 < Word.limit 4) :
    checkedSettle { t with nodes := b, length := t.length + 1 } i =
      pure (RTree.settle { t with nodes := b, length := t.length + 1 } i) := by
  obtain ⟨n, entries, hi, hn, -⟩ := grown.grown
  have wf := grown.wellFormed
  have htwo := t.two_le
  have hlimit4 : Word.limit 4 = 4294967296 := rfl
  have hlimit8 : Word.limit 8 = 18446744073709551616 := rfl
  have hnodes : 2 * t.nextId + 1 = 3 * b.length := wf.numbers
  have hcounted : t.length + 1 = (b.flatMap Node.entries).length := wf.counted
  have hle := length_entries_le_of_mem (List.mem_of_getElem? hi)
  rw [Node.entries, hn] at hle
  dsimp only at hle
  rw [settle_of_leaf hi hn, checkedSettle, item_eq hi, pure_bind]
  simp only [hn]
  split
  · rfl
  · have hshort : b.length + 1 < Word.limit 8 := by omega
    rw [Arena.checkedDivide_eq wf.linked grown.covered.filled hi hn (by omega) hshort (by omega) _
      numbers]
    rfl

/-- An entry that the index takes is put in its place. -/
theorem Sound.checkedPlace_eq (sound : Sound t) (h : t.accepts e = true)
    (room : 3 * (t.length + 1) + 1 < Word.limit 4) : t.checkedPlace e = pure (t.insert e) := by
  obtain ⟨i, b, grown⟩ := sound.exists_grown h
  obtain ⟨n, entries, hi, hn⟩ := grown.leaf
  have hlt : i < t.nodes.length := (List.getElem?_eq_some_iff.mp hi).1
  have hfew := sound.few
  have hlimit4 : Word.limit 4 = 4294967296 := rfl
  have hlimit8 : Word.limit 8 = 18446744073709551616 := rfl
  obtain ⟨filled, tight⟩ := sound.push h hi hn
  have hrefit := Arena.checkedRefitUp_eq (sound.linked.push hi hn e) filled
    (by rwa [List.length_modify]) (fun k hk hki => by
      rw [List.length_modify] at hk
      exact (tight k hk hki).dimension_boxAt) grown.refitUp
  have hplace := place_eq_insert sound h
  simp only [place, grown.descend, grown.refitUp, Option.bind_eq_bind, Option.bind_some,
    Option.pure_def, Option.some.injEq] at hplace
  rw [checkedPlace, Arena.checkedDescend_eq sound.linked sound.linked.pos grown.descend, pure_bind,
    item_eq hi, pure_bind, add_eq (by omega), pure_bind, hrefit, pure_bind,
    grown.checkedSettle_eq (by omega) (by omega), hplace]

/-- Entries are inserted into a sound index without a crash, as long as it has numbers for them. -/
theorem Sound.checkedInsertAll_eq (sound : Sound t) (entries : List Entry)
    (room : 3 * (t.length + entries.length) + 1 < Word.limit 4) :
    t.checkedInsertAll true entries = pure (t.insertAll entries) := by
  have hfold : ∀ (all : Bool), t.checkedInsertAll all entries =
      pure (entries.foldl (fun s e => (s.1.insert e, s.1.accepts e && s.2)) (t, all)) := by
    induction entries generalizing t with
    | nil => exact fun _ => rfl
    | cons e entries ih =>
      intro all
      rw [List.length_cons] at room
      rw [checkedInsertAll, checkedAccepts_eq sound.linked, pure_bind, List.foldl_cons]
      cases haccepts : t.accepts e with
      | true =>
        obtain ⟨hsound, hperm⟩ := sound.insert e
        have hlength : (t.insert e).length = t.length + 1 := by
          rw [hsound.counted, hperm.length_eq, List.length_append, ← sound.counted, taken,
            if_pos haccepts]
          rfl
        rw [if_pos rfl, sound.checkedPlace_eq haccepts (by omega), pure_bind, Bool.true_and]
        exact ih hsound (by omega) all
      | false =>
        rw [if_neg Bool.false_ne_true, insert_of_not_accepts haccepts, Bool.false_and]
        exact ih sound (by omega) false
  exact hfold true

/-- The machine comes to the same index, as long as four bytes hold the numbers. -/
theorem exists_checkedInsertAll_empty {maxNodeSize : Nat} (two_le : 2 ≤ maxNodeSize)
    {entries : List Entry} (room : 3 * entries.length + 1 < Word.limit 4) :
    ∃ all, (empty maxNodeSize two_le).checkedInsertAll true entries =
      pure (entries.foldl RTree.insert (empty maxNodeSize two_le), all) := by
  have hroom : 3 * ((empty maxNodeSize two_le).length + entries.length) + 1 < Word.limit 4 := by
    change 3 * (0 + entries.length) + 1 < Word.limit 4
    omega
  refine ⟨((empty maxNodeSize two_le).insertAll entries).2, ?_⟩
  rw [(sound_empty maxNodeSize two_le).checkedInsertAll_eq entries hroom]
  exact congrArg pure (Prod.ext (insertAll_eq _ entries) rfl)

end RTree

end SpatialSegment
