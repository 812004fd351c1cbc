import Mathlib.Algebra.GroupWithZero.Nat
import SpatialSegment.Proofs.Box.Stored
import SpatialSegment.Proofs.RTree.Renaming
import SpatialSegment.Proofs.Results
import SpatialSegment.RTree.Image

/-!
# What the file of an index holds

The file of a level-ordered arena is the preamble and, for each position in turn, the node and the
offsets of its children. Writing any index that fits the format gives the file of its arena
renumbered level by level: the second pass puts every offset where the reader will look for it.
-/

namespace SpatialSegment

/-- The bytes of an entry that fits the format. -/
def Entry.stored (e : Entry) : Bytes :=
  Word.big 4 e.offset ++ Word.big 4 e.box.storedLen ++ e.box.toBytes

def Entry.Fits (e : Entry) : Prop :=
  e.offset ≤ Word.maxSigned32 ∧ e.box.storedLen ≤ Word.maxSigned32

theorem Entry.toBytes_eq {e : Entry} (fits : e.Fits) : e.toBytes = .ok e.stored := by
  rw [Entry.toBytes, if_neg (Nat.not_lt.mpr fits.1), if_neg (Nat.not_lt.mpr fits.2)]
  rfl

theorem Entry.fits_of_toBytes {e : Entry} {bs : Bytes} (h : e.toBytes = .ok bs) : e.Fits := by
  rw [Entry.toBytes] at h
  split at h
  · cases h
  · split at h
    · cases h
    · exact ⟨by omega, by omega⟩

theorem Entry.length_stored (e : Entry) : e.stored.length = 8 + e.box.storedLen := by
  simp only [Entry.stored, List.length_append, Word.length_big, Box.length_toBytes]

namespace RTree

/-- The slots of a node for its entries. -/
def slotBytes (max : Nat) (entries : List Entry) : Bytes :=
  (entries.flatMap fun e => entryMarker :: e.stored) ++
    List.replicate (max - entries.length) absentMarker

/-- The words of a node for its children. -/
def wordBytes (max : Nat) (offsets : List Nat) : Bytes :=
  offsets.flatMap (Word.big 4) ++ (List.replicate (max - offsets.length) absentChild).flatten

theorem length_flatten_absentChild (k : Nat) :
    (List.replicate k absentChild).flatten.length = 4 * k := by
  simp [absentChild, Nat.mul_comm]

theorem length_wordBytes {max : Nat} {offsets : List Nat} (h : offsets.length ≤ max) :
    (wordBytes max offsets).length = 4 * max := by
  rw [wordBytes, List.length_append, length_flatMap_const (Word.length_big 4),
    length_flatten_absentChild]
  omega

theorem length_preamble (maxNodeSize : Nat) : (preamble maxNodeSize).length = rootOffset := by
  rw [preamble, List.length_append, Word.length_big]
  rfl

namespace Node

/-- The bytes of a node that fits the format, up to its children. -/
def stored (max : Nat) (n : Node) : Bytes :=
  Word.big 4 n.id ++ Word.big 4 n.box.storedLen ++ n.box.toBytes ++ slotBytes max n.entries

/-- How many bytes a node takes with the words for its children. -/
def storedLen (max : Nat) (n : Node) : Nat :=
  (n.stored max).length + 4 * max

structure Fits (n : Node) : Prop where
  box : n.box.storedLen ≤ Word.maxSigned32
  entries : ∀ e ∈ n.entries, e.Fits

theorem length_entries_le (n : Node) : n.entries.length ≤ n.size := by
  unfold Node.entries Node.size
  split <;> simp

theorem head_eq {n : Node} {max : Nat} (fits : n.Fits) (hsize : n.size ≤ max) :
    n.head max = .ok (n.stored max) := by
  have htake : n.entries.take max = n.entries :=
    List.take_of_length_le (n.length_entries_le.trans hsize)
  rw [head, if_neg (Nat.not_lt.mpr fits.box), slots, htake,
    mapM_ok fun e he => Entry.toBytes_eq (fits.entries e he), stored, slotBytes,
    ← List.flatMap_map (f := Entry.stored) (g := fun bs => entryMarker :: bs)]
  rfl

theorem fits_of_head {n : Node} {max : Nat} {bs : Bytes} (h : n.head max = .ok bs)
    (hsize : n.size ≤ max) : n.Fits := by
  have htake : n.entries.take max = n.entries :=
    List.take_of_length_le (n.length_entries_le.trans hsize)
  rw [head] at h
  split at h
  · cases h
  · rename_i hbox
    obtain ⟨slots, hslots, -⟩ := bind_eq_ok.mp h
    rw [RTree.slots, htake] at hslots
    obtain ⟨filled, hfilled, -⟩ := bind_eq_ok.mp hslots
    refine ⟨Nat.not_lt.mp hbox, fun e he => ?_⟩
    obtain ⟨bs, hbs⟩ := exists_of_mapM_ok hfilled e he
    exact Entry.fits_of_toBytes hbs

@[simp] theorem stored_rename (π : Nat → Nat) (max : Nat) (n : Node) :
    (n.rename π).stored max = n.stored max := by
  simp only [stored, entries_rename]
  rfl

@[simp] theorem storedLen_rename (π : Nat → Nat) (max : Nat) (n : Node) :
    (n.rename π).storedLen max = n.storedLen max := by
  simp only [storedLen, stored_rename]

end Node

/-- The bytes of a node, with a place for each of its children. -/
def Node.filed (max : Nat) (place : Nat → Nat) (n : Node) : Bytes :=
  n.stored max ++ wordBytes max (n.children.map place)

namespace Arena

/-- The bytes of all nodes in the order of the arena, with a place for each child. -/
def filed (a : Arena) (max : Nat) (place : Nat → Nat) : Bytes :=
  preamble max ++ a.flatMap (Node.filed max place)

/-- The offset of the node at a position, if the nodes are stored in the order of the arena. -/
def offset (a : Arena) (max k : Nat) : Nat :=
  rootOffset + ((a.take k).map (Node.storedLen max)).sum

/-- The bytes of the nodes in the order of the arena. -/
def nodeBytes (a : Arena) (max : Nat) (n : Node) : Bytes :=
  n.stored max ++ wordBytes max (n.children.map (a.offset max))

def layout (a : Arena) (max : Nat) : Bytes :=
  preamble max ++ List.flatMap (a.nodeBytes max) a

end Arena

/-- The arena of the index, level by level. -/
def leveled (t : RTree) : Arena :=
  Arena.renumber t.nodes (t.nodes.levelOrder t.maxNodeSize)

/-- Nodes as the format holds them. -/
structure Arena.Fitting (a : Arena) (max : Nat) : Prop where
  bounded : ∀ {i : Nat} {n : Node}, a[i]? = some n → n.size ≤ max
  listing : ∀ {i : Nat} {n : Node}, a[i]? = some n → n.items ≠ .directory []
  ids : ∀ {i : Nat} {n : Node}, a[i]? = some n → n.id ≤ Word.maxSigned32
  fits : ∀ {i : Nat} {n : Node}, a[i]? = some n → n.Fits

/-- An index whose nodes are written level by level, each under a number of its own. -/
structure Writable (t : RTree) : Prop where
  linked : Arena.Linked t.nodes
  distinct : (t.nodes.map Node.id).Nodup
  bounded : ∀ {i : Nat} {n : Node}, t.nodes[i]? = some n → n.size ≤ t.maxNodeSize

theorem Writable.levels {t : RTree} (writable : Writable t) :
    Arena.Levels t.nodes (t.nodes.levelOrder t.maxNodeSize) :=
  (writable.linked.levels writable.bounded).2

/-- What the format holds. -/
structure Storable (t : RTree) : Prop where
  linked : Arena.Linked t.nodes
  distinct : (t.nodes.map Node.id).Nodup
  fitting : Arena.Fitting t.nodes t.maxNodeSize
  small : t.maxNodeSize ≤ Word.maxSigned32
  offsets : ∀ k < t.nodes.length, t.leveled.offset t.maxNodeSize k ≤ Word.maxSigned32

theorem Arena.Fitting.rename {π : Nat → Nat} {a : Arena} {max : Nat} (fitting : a.Fitting max)
    {i : Nat} {n : Node} (hi : a[i]? = some n) : (n.rename π).size ≤ max ∧
      (n.rename π).items ≠ .directory [] ∧ (n.rename π).id ≤ Word.maxSigned32 ∧
        (n.rename π).Fits := by
  refine ⟨by simpa using fitting.bounded hi, fun h => fitting.listing hi ?_,
    show n.id ≤ _ from fitting.ids hi, (fitting.fits hi).box, ?_⟩
  · unfold Node.rename at h
    cases hn : n.items with
    | leaf es => simp [hn] at h
    | directory cs => simpa [hn] using h
  · simpa using (fitting.fits hi).entries

theorem Storable.writable {t : RTree} (storable : Storable t) : Writable t :=
  ⟨storable.linked, storable.distinct, storable.fitting.bounded⟩

theorem Storable.levelOrdered {t : RTree} (storable : Storable t) :
    Arena.LevelOrdered t.leveled :=
  storable.writable.levels.levelOrdered storable.linked

theorem Storable.fitting_leveled {t : RTree} (storable : Storable t) :
    Arena.Fitting t.leveled t.maxNodeSize := by
  have hnode : ∀ {k : Nat} {m : Node}, t.leveled[k]? = some m → m.size ≤ t.maxNodeSize ∧
      m.items ≠ .directory [] ∧ m.id ≤ Word.maxSigned32 ∧ m.Fits := fun hk => by
    obtain ⟨i, n, -, -, hi, rfl⟩ := storable.writable.levels.exists_node hk
    exact storable.fitting.rename hi
  exact ⟨fun h => (hnode h).1, fun h => (hnode h).2.1, fun h => (hnode h).2.2.1,
    fun h => (hnode h).2.2.2⟩

end RTree

end SpatialSegment
