import SpatialSegment.Proofs.RTree.History

/-!
# Regions are answered as by a linear scan

Skipping a node whose box does not touch the region skips no entry that touches it, because every
entry lies inside the boxes of all nodes above it. So the way of a search finds the same entries as
a visit of the whole arena, which meets every entry once.
-/

namespace SpatialSegment

namespace RTree

namespace Arena

/-- What a node lists lies in its box. -/
def Nested (a : Arena) : Prop :=
  ∀ {i : Nat} {n : Node}, a[i]? = some n → ∀ b ∈ a.itemBoxes n, Inside b.bounds n.box.bounds

/-- The entries at one position whose boxes touch the region. -/
def hits (a : Arena) (region : Box) (i : Nat) : List Entry :=
  ((a[i]?.map Node.entries).getD []).filter fun e => e.box.intersects region

/-- The entries at and below a position whose boxes touch the region. -/
def hitsBelow (a : Arena) (region : Box) (i : Nat) : List Entry :=
  (a.subtree i).flatMap (a.hits region)

section

variable {a : Arena} {region : Box} {i : Nat} {n : Node}

theorem hits_eq (hi : a[i]? = some n) :
    a.hits region i = n.entries.filter fun e => e.box.intersects region := by
  rw [hits, hi]
  rfl

theorem Linked.hitsBelow_eq (linked : Linked a) (hi : a[i]? = some n) :
    a.hitsBelow region i =
      a.hits region i ++ n.children.reverse.flatMap (a.hitsBelow region) := by
  rw [hitsBelow, linked.subtree_eq hi, List.flatMap_cons, List.flatMap_assoc]
  rfl

/-- Nothing touches the region below a node whose box does not. -/
theorem Linked.hitsBelow_eq_nil (linked : Linked a) (nested : Nested a) (hi : a[i]? = some n)
    (h : n.box.intersects region = false) : a.hitsBelow region i = [] := by
  induction hk : a.length - i using Nat.strongRecOn generalizing i n with
  | ind k ih =>
    have apart : ∀ b ∈ a.itemBoxes n, b.intersects region = false := fun b hb => by
      rw [← Bool.not_eq_true]
      intro hb'
      rw [Box.intersects_of_inside (nested hi b hb) hb'] at h
      cases h
    rw [linked.hitsBelow_eq hi, hits_eq hi, List.append_eq_nil_iff, List.filter_eq_nil_iff,
      List.flatMap_eq_nil_iff]
    refine ⟨fun e he => ?_, fun c hc => ?_⟩
    · have hmem : e.box ∈ a.itemBoxes n := by
        unfold Node.entries at he
        unfold itemBoxes
        split at he
        · exact List.mem_map_of_mem he
        · cases he
      simp [apart _ hmem]
    · rw [List.mem_reverse] at hc
      obtain ⟨hlt, hin⟩ := linked.child_lt hi hc
      have hc' : a[c]? = some a[c] := List.getElem?_eq_getElem hin
      have hmem : a[c].box ∈ a.itemBoxes n := by
        rw [← boxAt_eq hc']
        unfold Node.children at hc
        unfold itemBoxes
        split at hc
        · cases hc
        · exact List.mem_map_of_mem hc
      exact ih (a.length - c) (by omega) hc' (apart _ hmem) rfl

/-! ## The steps of a search -/

@[simp] theorem search_nil (found : List Entry) : a.search region found [] = some found := by
  rw [search]

theorem search_skip (hi : a[i]? = some n) (h : n.box.intersects region = false)
    (found : List Entry) (stack : List Nat) :
    a.search region found (i :: stack) = a.search region found stack := by
  rw [search]
  simp [hi, h]

theorem search_leaf {es : List Entry} (hi : a[i]? = some n) (hn : n.items = .leaf es)
    (h : n.box.intersects region = true) (found : List Entry) (stack : List Nat) :
    a.search region found (i :: stack) =
      a.search region (found ++ es.filter fun e => e.box.intersects region) stack := by
  rw [search]
  simp only [hi, h, hn, if_true]

theorem search_directory {cs : List Nat} (hi : a[i]? = some n) (hn : n.items = .directory cs)
    (h : n.box.intersects region = true) (found : List Entry) (stack : List Nat) :
    a.search region found (i :: stack) =
      a.search region found
        ((cs.filter fun c => (a.boxAt c).intersects region).reverse ++ stack) := by
  rw [search]
  simp only [hi, h, hn, if_true]

/-- Leaving out positions below which nothing touches the region changes nothing. -/
theorem Linked.flatMap_hitsBelow_filter (linked : Linked a) (nested : Nested a) {cs : List Nat}
    (inside : ∀ c ∈ cs, c < a.length) :
    (cs.filter fun c => (a.boxAt c).intersects region).reverse.flatMap (a.hitsBelow region) =
      cs.reverse.flatMap (a.hitsBelow region) := by
  rw [← List.filter_reverse]
  have inside' : ∀ c ∈ cs.reverse, c < a.length := by simpa using inside
  generalize cs.reverse = rs at inside' ⊢
  induction rs with
  | nil => rfl
  | cons c rs ih =>
    obtain ⟨n, hc⟩ : ∃ n, a[c]? = some n :=
      ⟨_, List.getElem?_eq_getElem (inside' c List.mem_cons_self)⟩
    have hrest := ih fun x hx => inside' x (List.mem_cons_of_mem _ hx)
    rw [List.flatMap_cons, ← hrest, List.filter_cons]
    cases h : (a.boxAt c).intersects region with
    | true => rfl
    | false =>
      rw [boxAt_eq hc] at h
      rw [linked.hitsBelow_eq_nil nested hc h]
      rfl

/-- A search appends what a visit of all positions below its stack would find. -/
theorem Linked.search_eq (linked : Linked a) (nested : Nested a) (stack : List Nat)
    (inside : ∀ i ∈ stack, i < a.length) (found : List Entry) :
    a.search region found stack = some (found ++ stack.flatMap (a.hitsBelow region)) := by
  refine stack_induction a.length (P := fun stack => ∀ found,
    a.search region found stack = some (found ++ stack.flatMap (a.hitsBelow region)))
    (by simp) ?_ stack inside found
  intro i stack hi hstack hpush found
  have hn : a[i]? = some a[i] := List.getElem?_eq_getElem hi
  cases h : a[i].box.intersects region with
  | false =>
    rw [search_skip hn h, hstack, List.flatMap_cons, linked.hitsBelow_eq_nil nested hn h]
    rfl
  | true =>
    rw [List.flatMap_cons, linked.hitsBelow_eq hn, hits_eq hn]
    cases hitems : a[i].items with
    | leaf es =>
      have hchildren : a[i].children = [] := by rw [Node.children, hitems]
      have hentries : a[i].entries = es := by rw [Node.entries, hitems]
      rw [search_leaf hn hitems h, hstack, hchildren, hentries]
      simp
    | directory cs =>
      have hchildren : a[i].children = cs := by rw [Node.children, hitems]
      have hentries : a[i].entries = [] := by rw [Node.entries, hitems]
      have hlt : ∀ c ∈ cs, i < c ∧ c < a.length := fun c hc =>
        linked.child_lt hn (hchildren ▸ hc)
      rw [search_directory hn hitems h, hpush _ fun c hc => ?_, List.flatMap_append,
        linked.flatMap_hitsBelow_filter nested fun c hc => (hlt c hc).2, hchildren, hentries]
      · simp
      · exact hlt c (List.mem_of_mem_filter (List.mem_reverse.mp hc))

/-- Below the root lies every entry once. -/
theorem Linked.hitsBelow_root_perm (linked : Linked a) (region : Box) :
    (a.hitsBelow region rootPosition).Perm
      ((a.flatMap Node.entries).filter fun e => e.box.intersects region) := by
  obtain ⟨order, horder, hperm⟩ := linked.visits_root
  rw [hitsBelow, subtree, horder, Option.getD_some, List.filter_flatMap]
  exact flatMap_perm hperm hits_eq

end

end Arena

section

variable {t : RTree}

theorem WellFormed.nested (wf : WellFormed t) : Arena.Nested t.nodes := by
  obtain hempty | ⟨d, covered⟩ := wf.boxes
  · intro i n hi b hb
    have hmem := List.mem_of_getElem? hi
    rw [hempty] at hmem
    cases List.mem_singleton.mp hmem
    cases hb
  · intro i n hi b hb
    rw [← ((covered.tight i (List.getElem?_eq_some_iff.mp hi).1).node hi).2]
    refine Box.inside_unionAll (covered.filled.dimension_itemBoxes hi fun c hc => ?_) hb
    exact (covered.tight c (wf.linked.child_lt hi hc).2).dimension_boxAt

theorem Sound.search_root (sound : Sound t) (region : Box) (found : List Entry) :
    t.nodes.search region found [rootPosition] =
      some (found ++ t.nodes.hitsBelow region rootPosition) := by
  rw [sound.linked.search_eq sound.nested [rootPosition] (by simpa using sound.linked.pos)]
  simp

theorem Sound.query_eq (sound : Sound t) (region : Box) :
    t.query region = t.nodes.hitsBelow region rootPosition := by
  rw [query, queryAfter, sound.search_root]
  rfl

/-- A sound index answers a region with the entries whose boxes touch it. -/
theorem Sound.query_perm (sound : Sound t) (region : Box) :
    (t.query region).Perm (t.entries.filter fun e => e.box.intersects region) := by
  rw [sound.query_eq]
  exact sound.linked.hitsBelow_root_perm region

end

/-- After any calls on an empty index a search for a region comes to an end, and it appends to the
entries already found those that the index took and whose boxes touch the region. -/
theorem query_after_calls (maxNodeSize : Nat) (two_le : 2 ≤ maxNodeSize) (calls : List Call)
    (region : Box) :
    let t := runCalls (empty maxNodeSize two_le) calls
    (t.query region).Perm
        ((taken (empty maxNodeSize two_le) (calls.flatMap Call.entries)).filter
          fun e => e.box.intersects region) ∧
      ∀ found,
        t.nodes.search region found [rootPosition] = some (found ++ t.query region) ∧
          t.queryAfter region found = found ++ t.query region := by
  intro t
  have ht : t = (calls.flatMap Call.entries).foldl RTree.insert (empty maxNodeSize two_le) :=
    runCalls_eq _ _
  obtain ⟨sound, hperm⟩ := (sound_empty maxNodeSize two_le).foldl_insert
    (calls.flatMap Call.entries)
  rw [← ht] at sound hperm
  refine ⟨(sound.query_perm region).trans (hperm.filter _), fun found => ?_⟩
  have hsearch := sound.search_root region found
  rw [← sound.query_eq] at hsearch
  exact ⟨hsearch, by rw [queryAfter, hsearch]; rfl⟩

/-- The full space is refused, the two boxes are taken, and one of them touches the region. -/
theorem query_after_two_calls :
    let low : Box := ⟨[⟨⟨0⟩, ⟨0x3ff0000000000000⟩, by decide⟩]⟩
    let high : Box := ⟨[⟨⟨0x4000000000000000⟩, ⟨0x4008000000000000⟩, by decide⟩]⟩
    let calls := [Call.insert ⟨low, 0⟩, .insertAll [⟨Box.fullSpace, 10⟩, ⟨high, 20⟩]]
    ((runCalls (empty 2 (by decide)) calls).query high).Perm [⟨high, 20⟩] := by
  intro low high calls
  refine (query_after_calls 2 (by decide) calls high).1.trans (.of_eq ?_)
  have hempty := sound_empty 2 (by decide)
  have haccepts : (empty 2 (by decide)).accepts ⟨low, 0⟩ = true := by decide
  change ((taken (empty 2 (by decide)) (⟨low, 0⟩ :: [⟨Box.fullSpace, 10⟩, ⟨high, 20⟩])).filter
    fun e => e.box.intersects high) = _
  rw [taken, if_pos haccepts, (hempty.insert ⟨low, 0⟩).1.taken_eq_filter
    (hempty.dimension?_insert haccepts)]
  decide

end RTree

end SpatialSegment
