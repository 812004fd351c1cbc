import SpatialSegment.Proofs.RTree.Query
import SpatialSegment.Proofs.RTree.Saved

/-!
# The box of the root

The box of a node is, as numbers, the one around what the node lists. From the leaves upwards it is
then the one around all entries below the node, so that of the root is around all entries of the
index, and it is the same when the index is read back.
-/

namespace SpatialSegment

theorem Box.bounds_unionAll_flatten (rows : List (List Box)) :
    (unionAll rows.flatten).bounds = (unionAll (rows.map unionAll)).bounds := by
  induction rows with
  | nil => rfl
  | cons row rows ih =>
    rw [List.flatten_cons, bounds_unionAll_append, ih, List.map_cons, bounds_unionAll_cons]

namespace RTree

namespace Arena

variable {a : Arena} {d i : Nat} {n : Node}

/-- The boxes of the entries at and below a position: all of them touch the full space. -/
def boxesBelow (a : Arena) (i : Nat) : List Box :=
  (a.hitsBelow Box.fullSpace i).map Entry.box

theorem filter_intersects_fullSpace (entries : List Entry) :
    (entries.filter fun e => e.box.intersects Box.fullSpace) = entries := by
  refine List.filter_eq_self.mpr fun e _ => ?_
  rw [Box.intersects, Bool.or_assoc, Bool.or_comm]
  rfl

theorem Linked.boxesBelow_eq (linked : Linked a) (hi : a[i]? = some n) :
    a.boxesBelow i =
      n.entries.map Entry.box ++ (n.children.reverse.map a.boxesBelow).flatten := by
  rw [boxesBelow, linked.hitsBelow_eq hi, hits_eq hi, filter_intersects_fullSpace, List.map_append,
    List.map_flatMap, List.flatMap_def]
  rfl

theorem Linked.boxesBelow_root_perm (linked : Linked a) :
    (a.boxesBelow rootPosition).Perm ((a.flatMap Node.entries).map Entry.box) := by
  have hperm := (linked.hitsBelow_root_perm Box.fullSpace).map Entry.box
  rwa [filter_intersects_fullSpace] at hperm

/-- A tight position is around all entries below it. -/
theorem Linked.bounds_boxesBelow (linked : Linked a) (tight : ∀ i < a.length, a.TightAt d i)
    (hi : a[i]? = some n) : (Box.unionAll (a.boxesBelow i)).bounds = n.box.bounds := by
  induction hk : a.length - i using Nat.strongRecOn generalizing i n with
  | ind k ih =>
    have hbox := ((tight i (List.getElem?_eq_some_iff.mp hi).1).node hi).2
    have hbelow := linked.boxesBelow_eq hi
    rw [← hbox]
    cases hitems : n.items with
    | leaf es =>
      rw [Node.entries, Node.children, hitems] at hbelow
      rw [hbelow, itemBoxes, hitems]
      simp
    | directory cs =>
      have hchildren : n.children = cs := by rw [Node.children, hitems]
      have hsame : ∀ c ∈ cs, (Box.unionAll (a.boxesBelow c)).bounds = (a.boxAt c).bounds := by
        intro c hc
        obtain ⟨hlt, hin⟩ := linked.child_lt hi (hchildren ▸ hc)
        have hnode : a[c]? = some a[c] := List.getElem?_eq_getElem hin
        rw [boxAt_eq hnode]
        exact ih (a.length - c) (by omega) hnode rfl
      rw [Node.entries, hitems, hchildren] at hbelow
      calc (Box.unionAll (a.boxesBelow i)).bounds
          = (Box.unionAll (cs.reverse.map a.boxesBelow).flatten).bounds := by rw [hbelow]; rfl
        _ = (Box.unionAll ((cs.map a.boxesBelow).map Box.unionAll)).bounds := by
          rw [Box.bounds_unionAll_flatten]
          exact Box.bounds_unionAll_perm (((cs.reverse_perm).map _).map _)
        _ = (Box.unionAll (cs.map a.boxAt)).bounds := by
          refine Box.unionAll_congr ?_
          rw [List.map_map, List.map_map, List.map_map]
          exact List.map_congr_left hsame
        _ = (Box.unionAll (a.itemBoxes n)).bounds := by rw [itemBoxes, hitems]

end Arena

variable {t t' : RTree}

/-- The root is around all entries of a sound index. -/
theorem Sound.bounds_box (sound : Sound t) :
    t.box.bounds = (Box.unionAll (t.entries.map Entry.box)).bounds := by
  obtain hempty | ⟨d, covered⟩ := sound.boxes
  · rw [box, entries, hempty]
    rfl
  · obtain ⟨root, hroot, -⟩ := sound.linked.root
    rw [box, Arena.boxAt_eq hroot, ← sound.linked.bounds_boxesBelow covered.tight hroot]
    exact Box.bounds_unionAll_perm sound.linked.boxesBelow_root_perm

/-- An index that has been written is read back with the same box. -/
theorem Sound.box_of_ofBytes (sound : Sound t) (himage : t.image.2 = .ok ())
    (hread : ofBytes t.image.1 = .ok t') : t'.box = t.box := by
  have storable := sound.storable_of_image himage
  have same := sound.sameIndex
  rw [storable.image_eq] at hread
  cases hread.symm.trans storable.ofBytes_eq
  have hroot := same.arena.boxAt_eq sound.linked.pos
  rw [same.arena.root] at hroot
  exact hroot

end RTree

end SpatialSegment
