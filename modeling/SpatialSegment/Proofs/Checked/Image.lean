import Mathlib.Algebra.Order.BigOperators.Group.List
import SpatialSegment.Proofs.Checked.Steps
import SpatialSegment.Proofs.RTree.RoundTrip

/-!
# The spatial index is written without a crash

The length of a box is a product, and the place of the words of a node is a sum of lengths, which
the file has before it is known whether it fits the format. Both passes look nodes up by their
positions. A node size that the format does not hold is refused before anything is written, so the
file of an index with fewer entries than an eighth of the numbers is far from the limit of a word.
-/

namespace SpatialSegment

open Machine

def Box.checkedStoredLen (b : Box) : Machine Nat :=
  mul b.coords.length 8

theorem Box.checkedStoredLen_eq {b : Box} (h : b.storedLen < Word.limit 8) :
    b.checkedStoredLen = pure b.storedLen := by
  have hlen : b.coords.length * 8 = b.storedLen := by
    rw [length_coords, storedLen, dimension]
    omega
  rw [checkedStoredLen, mul_eq (by omega), hlen]

def Entry.checkedToBytes (e : Entry) : Checked ArgumentFault Bytes := do
  if Word.maxSigned32 < e.offset then throw (.entryOffset e.offset)
  else
    let boxLen ← e.box.checkedStoredLen
    if Word.maxSigned32 < boxLen then throw .longBox
    else return Word.big 4 e.offset ++ Word.big 4 boxLen ++ e.box.toBytes

theorem Entry.checkedToBytes_eq {e : Entry} (h : e.box.storedLen < Word.limit 8) :
    e.checkedToBytes = Checked.of e.toBytes := by
  rw [checkedToBytes, toBytes]
  by_cases hoffset : Word.maxSigned32 < e.offset
  · rw [if_pos hoffset, if_pos hoffset]
    rfl
  · rw [if_neg hoffset, if_neg hoffset, Box.checkedStoredLen_eq h, Checked.lift_bind]
    by_cases hbox : Word.maxSigned32 < e.box.storedLen
    · rw [if_pos hbox, if_pos hbox]
      rfl
    · rw [if_neg hbox, if_neg hbox]
      rfl

namespace RTree

/-- The nodes at the positions of a queue and all nodes below them, level by level. -/
def Arena.checkedBreadthFirst (a : Arena) (max : Nat) : List Nat → Machine (List Node)
  | [] => return []
  | i :: queue => do
    let n ← item a i
    let rest ← a |>.checkedBreadthFirst max (queue ++ n.children.take max)
    return n :: rest
partial_fixpoint

def checkedSlots (max : Nat) (entries : List Entry) : Checked ArgumentFault Bytes := do
  let filled ← (entries.take max).mapM Entry.checkedToBytes
  return (filled.flatMap (entryMarker :: ·)) ++
    List.replicate (max - entries.length) absentMarker

def Node.checkedHead (max : Nat) (n : Node) : Checked ArgumentFault Bytes := do
  let boxLen ← n.box.checkedStoredLen
  if Word.maxSigned32 < boxLen then throw .longBox
  let slots ← checkedSlots max n.entries
  return Word.big 4 n.id ++ Word.big 4 boxLen ++ n.box.toBytes ++ slots

/-- The nodes one behind the other up to the first that cannot be written, and why it cannot. -/
def FirstPass.checkedWriteAll (max : Nat) (p : FirstPass) :
    List Node → Machine (FirstPass × Except ArgumentFault Unit)
  | [] => return (p, .ok ())
  | n :: rest => do
    match ← (n.checkedHead max).run with
    | .error cause => return (p, .error cause)
    | .ok head =>
      let words ← add p.file.length head.length
      checkedWriteAll max { p.write max n head with patches := p.patches ++ [(words, n)] } rest

/-- The second pass. -/
def Arena.checkedFillInAll (a : Arena) (places : List (Nat × Nat)) (file : Bytes) :
    List (Nat × Node) → Machine (Bytes × Except SegmentError Unit)
  | [] => return (file, .ok ())
  | patch :: rest => do
    let ids ← patch.2.children.mapM fun c => do return (← item a c).id
    match fillIn places file patch.1 ids with
    | (file, .error cause) => return (file, .error cause)
    | (file, .ok ()) => a.checkedFillInAll places file rest

def checkedImage (t : RTree) : Machine (Bytes × Except SegmentError Unit) :=
  if Word.maxSigned32 < t.maxNodeSize then
    return ([], .error (.invalidArgument .nodeSizeBeyondFormat))
  else do
    let nodes ← t.nodes.checkedBreadthFirst t.maxNodeSize [rootPosition]
    match ← FirstPass.checkedWriteAll t.maxNodeSize ⟨preamble t.maxNodeSize, [], []⟩ nodes with
    | (pass, .error cause) => return (pass.file, .error (.invalidArgument cause))
    | (pass, .ok ()) => t.nodes.checkedFillInAll pass.places pass.file pass.patches

/-- The lengths of the boxes of a node are numbers of the machine. -/
def Node.Measured (n : Node) : Prop :=
  n.box.storedLen < Word.limit 8 ∧ ∀ e ∈ n.entries, e.box.storedLen < Word.limit 8

section

variable {a : Arena} {max : Nat}

theorem checkedBreadthFirst_eq
    (bounded : ∀ {i : Nat} {n : Node}, a[i]? = some n → n.size ≤ max) {queue order : List Nat}
    (h : a.breadthFirst max queue = some order) :
    a.checkedBreadthFirst max queue = pure (order.filterMap (a[·]?)) := by
  refine Arena.breadthFirst_induction bounded (P := fun queue order =>
    a.checkedBreadthFirst max queue = pure (order.filterMap (a[·]?))) ?_ ?_ h
  · rw [Arena.checkedBreadthFirst]
    rfl
  · intro i n queue order hi ih
    have htake : n.children.take max = n.children :=
      List.take_of_length_le (Nat.le_trans n.length_children_le (bounded hi))
    rw [Arena.checkedBreadthFirst, item_eq hi, pure_bind, htake, ih, pure_bind,
      List.filterMap_cons, hi]

theorem checkedSlots_eq {entries : List Entry}
    (h : ∀ e ∈ entries, e.box.storedLen < Word.limit 8) :
    checkedSlots max entries = Checked.of (slots max entries) := by
  rw [checkedSlots, slots,
    Checked.mapM_of fun e he => Entry.checkedToBytes_eq (h e (List.mem_of_mem_take he))]
  exact Checked.bind_eq rfl fun filled _ => rfl

theorem Node.checkedHead_eq {n : Node} (measured : n.Measured) :
    n.checkedHead max = Checked.of (n.head max) := by
  rw [checkedHead, head, Box.checkedStoredLen_eq measured.1, Checked.lift_bind]
  by_cases hbox : Word.maxSigned32 < n.box.storedLen
  · rw [if_pos hbox, if_pos hbox]
    rfl
  · rw [if_neg hbox, if_neg hbox, checkedSlots_eq measured.2]
    exact Checked.bind_eq rfl fun slots _ => rfl

/-- The first pass comes to its end if the file of all nodes would not be too long for a word. -/
theorem checkedWriteAll_eq {nodes : List Node} (measured : ∀ n ∈ nodes, n.Measured)
    (bounded : ∀ n ∈ nodes, n.size ≤ max) (p : FirstPass)
    (size : p.file.length + (nodes.map (Node.storedLen max)).sum < Word.limit 8) :
    p.checkedWriteAll max nodes = pure (p.writeAll max nodes) := by
  induction nodes generalizing p with
  | nil => rfl
  | cons n nodes ih =>
    obtain ⟨hmeasured, measured⟩ := List.forall_mem_cons.mp measured
    obtain ⟨hbounded, bounded⟩ := List.forall_mem_cons.mp bounded
    rw [FirstPass.checkedWriteAll, Node.checkedHead_eq hmeasured, FirstPass.writeAll]
    change (pure (n.head max) >>= _) = _
    rw [pure_bind]
    cases hhead : n.head max with
    | error cause => rfl
    | ok head =>
      have hstored := Node.head_eq (Node.fits_of_head hhead hbounded) hbounded
      rw [hhead] at hstored
      cases hstored
      rw [List.map_cons, List.sum_cons, Node.storedLen] at size
      dsimp only
      rw [add_eq (by omega), pure_bind]
      refine ih measured bounded (p.write max n (n.stored max)) ?_
      rw [FirstPass.write, List.length_append, List.length_append, length_flatten_absentChild]
      omega

theorem mem_patches_of_writeAll {nodes : List Node} {p : FirstPass} {patch : Nat × Node}
    (h : patch ∈ (p.writeAll max nodes).1.patches) : patch ∈ p.patches ∨ patch.2 ∈ nodes := by
  induction nodes generalizing p with
  | nil => exact Or.inl h
  | cons n nodes ih =>
    rw [FirstPass.writeAll] at h
    cases hhead : n.head max with
    | error cause =>
      rw [hhead] at h
      exact Or.inl h
    | ok head =>
      rw [hhead] at h
      rcases ih h with hold | hnew
      · rcases List.mem_append.mp hold with hold | hlast
        · exact Or.inl hold
        · rw [List.mem_singleton.mp hlast]
          exact Or.inr List.mem_cons_self
      · exact Or.inr (List.mem_cons_of_mem _ hnew)

theorem checkedFillInAll_eq {patches : List (Nat × Node)}
    (inside : ∀ patch ∈ patches, ∀ c ∈ patch.2.children, c < a.length)
    (places : List (Nat × Nat)) (file : Bytes) :
    a.checkedFillInAll places file patches = pure (a.fillInAll places file patches) := by
  induction patches generalizing file with
  | nil => rfl
  | cons patch patches ih =>
    obtain ⟨hpatch, inside⟩ := List.forall_mem_cons.mp inside
    have hids : (patch.2.children.mapM fun c => do return (← item a c).id : Machine (List Nat)) =
        pure (patch.2.children.map a.idAt) := by
      refine mapM_eq fun c hc => ?_
      obtain ⟨m, hm⟩ : ∃ m, a[c]? = some m := ⟨_, List.getElem?_eq_getElem (hpatch c hc)⟩
      rw [item_eq hm, pure_bind, Arena.idAt, hm]
      rfl
    rw [Arena.checkedFillInAll, hids, pure_bind, Arena.fillInAll]
    cases fillIn places file patch.1 (patch.2.children.map a.idAt) with
    | mk filled result =>
      cases result with
      | error cause => rfl
      | ok _ => exact ih inside filled

end

section

variable {t : RTree}

/-- The file of an index with few entries is far from the limit of a word. -/
theorem Sound.storedSize_lt (sound : Sound t)
    (wide : ∀ e ∈ t.entries, e.box.storedLen ≤ Word.maxSigned32)
    (few : 8 * t.length ≤ Word.limit 4) (small : t.maxNodeSize ≤ Word.maxSigned32) :
    t.storedSize < Word.limit 8 := by
  have hsize := sound.storedSize_le wide
  have hmax : Word.maxSigned32 = 2147483647 := rfl
  have hlimit4 : Word.limit 4 = 4294967296 := rfl
  have hlimit8 : Word.limit 8 = 18446744073709551616 := rfl
  have hroot : rootOffset = 14 := rfl
  have hnodes := Nat.mul_le_mul (show 2 * t.length + 1 ≤ 1073741825 by omega)
    (show 8 + Word.maxSigned32 + 5 * t.maxNodeSize ≤ 12884901890 by omega)
  have hentries := Nat.mul_le_mul (show t.length ≤ 536870912 by omega)
    (show 9 + Word.maxSigned32 ≤ 2147483656 by omega)
  omega

theorem Sound.measured (sound : Sound t)
    (wide : ∀ e ∈ t.entries, e.box.storedLen ≤ Word.maxSigned32) :
    ∀ n ∈ t.storedNodes, n.Measured := by
  have hlimit : Word.maxSigned32 < Word.limit 8 := by decide
  intro n hn
  obtain ⟨i, hi⟩ := exists_getElem?_of_mem_storedNodes hn
  have hmem := List.mem_of_getElem? hi
  refine ⟨Nat.lt_of_le_of_lt (sound.storedLen_box_le wide hmem) hlimit, fun e he => ?_⟩
  exact Nat.lt_of_le_of_lt (wide e (List.mem_flatMap.mpr ⟨n, hmem, he⟩)) hlimit

theorem Sound.sum_storedLen_storedNodes (sound : Sound t) :
    (preamble t.maxNodeSize).length + (t.storedNodes.map (Node.storedLen t.maxNodeSize)).sum =
      t.storedSize := by
  have hperm := (filterMap_getElem?_perm sound.writable.levels.perm).map
    (Node.storedLen t.maxNodeSize)
  rw [length_preamble, sound.writable.storedNodes_eq, hperm.sum_nat, Node.storedLen_eq]
  rfl

/-- A sound index with few entries that have come into the log is written without a crash. -/
theorem Sound.checkedImage_eq (sound : Sound t)
    (wide : ∀ e ∈ t.entries, e.box.storedLen ≤ Word.maxSigned32)
    (few : 8 * t.length ≤ Word.limit 4) : t.checkedImage = pure t.image := by
  rw [checkedImage, image]
  by_cases hlarge : Word.maxSigned32 < t.maxNodeSize
  · rw [if_pos hlarge, if_pos hlarge]
  · have hsize := sound.storedSize_lt wide few (Nat.not_lt.mp hlarge)
    rw [← sound.sum_storedLen_storedNodes] at hsize
    have hnodes : t.nodes.checkedBreadthFirst t.maxNodeSize [rootPosition] =
        pure t.storedNodes := by
      rw [checkedBreadthFirst_eq sound.bounded (sound.linked.levels sound.bounded).1,
        sound.writable.storedNodes_eq]
    rw [if_neg hlarge, if_neg hlarge, hnodes, pure_bind,
      checkedWriteAll_eq (sound.measured wide) sound.writable.size_le _ hsize, pure_bind]
    dsimp only
    cases hpass : FirstPass.writeAll t.maxNodeSize ⟨preamble t.maxNodeSize, [], []⟩
        t.storedNodes with
    | mk pass result =>
      cases result with
      | error cause => rfl
      | ok _ =>
        refine checkedFillInAll_eq (fun patch hpatch c hc => ?_) _ _
        have hsame := congrArg (fun done => done.1.patches) hpass
        rw [← show _ = pass.patches from hsame] at hpatch
        obtain ⟨i, hi⟩ := exists_getElem?_of_mem_storedNodes
          ((mem_patches_of_writeAll hpatch).resolve_left List.not_mem_nil)
        exact (sound.linked.child_lt hi hc).2

end

end RTree

end SpatialSegment
