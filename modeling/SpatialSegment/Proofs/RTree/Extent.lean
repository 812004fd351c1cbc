import SpatialSegment.Proofs.RTree.Gathered

/-!
# How far the reader looks

A part of a node that is read from the front of some bytes is read from them whatever follows, and
leaves what follows. So an index that has been accepted is accepted with any bytes behind it, and
the front of a node, without its last byte, is not a node.
-/

namespace SpatialSegment

namespace RTree

/-! ## The parts of a node -/

section

variable {α β : Type} {more : Bytes}

/-- If there is a first result, the second one is the same with more bytes left. -/
def Extends (more : Bytes) (x y : Except FormatFault (α × Bytes)) : Prop :=
  ∀ a rest, x = .ok (a, rest) → y = .ok (a, rest ++ more)

namespace Extends

theorem ok (a : α) (rest : Bytes) : Extends more (.ok (a, rest)) (.ok (a, rest ++ more)) := by
  intro b rest' h
  cases h
  rfl

theorem error (cause : FormatFault) (y : Except FormatFault (α × Bytes)) :
    Extends more (.error cause) y := by
  intro a rest h
  cases h

theorem bind {x y : Except FormatFault (α × Bytes)} {f : α × Bytes → Except FormatFault (β × Bytes)}
    (hread : Extends more x y)
    (hnext : ∀ a rest, Extends more (f (a, rest)) (f (a, rest ++ more))) :
    Extends more (x >>= f) (y >>= f) := by
  intro b rest h
  obtain ⟨⟨a, rest'⟩, ha, hb⟩ := bind_eq_ok.mp h
  exact bind_eq_ok.mpr ⟨_, hread a rest' ha, hnext a rest' b rest hb⟩

end Extends

theorem split?_extended {n : Nat} {bs head rest : Bytes} (h : Bytes.split? n bs = some (head, rest))
    (more : Bytes) : Bytes.split? n (bs ++ more) = some (head, rest ++ more) := by
  obtain ⟨rfl, hlength⟩ := Bytes.split?_eq_some_iff.mp h
  rw [List.append_assoc]
  exact Bytes.split?_append hlength _

theorem extends_word (bs : Bytes) : Extends more (readWord bs) (readWord (bs ++ more)) := by
  unfold readWord
  cases hsplit : Bytes.split? 4 bs with
  | none => exact .error _ _
  | some split =>
    rw [split?_extended hsplit]
    exact .ok _ _

theorem extends_box (bs : Bytes) : Extends more (readBox bs) (readBox (bs ++ more)) := by
  unfold readBox
  refine (extends_word bs).bind fun length bs => ?_
  dsimp only
  by_cases hneg : length < 0
  · rw [if_pos hneg]
    exact .error _ _
  rw [if_neg hneg, if_neg hneg]
  cases hsplit : Bytes.split? length.toNat bs with
  | none => exact .error _ _
  | some split =>
    rw [split?_extended hsplit]
    dsimp only
    cases Box.ofBytes split.1 with
    | error cause => exact .error _ _
    | ok box => exact .ok box _

theorem extends_entry (bs : Bytes) : Extends more (readEntry bs) (readEntry (bs ++ more)) := by
  unfold readEntry
  refine (extends_word bs).bind fun offset bs => ?_
  dsimp only
  by_cases hneg : offset < 0
  · rw [if_pos hneg]
    exact .error _ _
  · rw [if_neg hneg, if_neg hneg]
    exact (extends_box bs).bind fun box bs => .ok _ _

theorem extends_slots (id slots : Nat) (bs : Bytes) :
    Extends more (readSlots id slots bs) (readSlots id slots (bs ++ more)) := by
  induction slots generalizing bs with
  | zero => exact .ok [] bs
  | succ slots ih =>
    cases bs with
    | nil => exact .error _ _
    | cons marker bs =>
      rw [List.cons_append, readSlots, readSlots]
      by_cases hentry : marker = entryMarker
      · rw [if_pos hentry, if_pos hentry]
        exact (extends_entry bs).bind fun e bs => (ih bs).bind fun es bs => .ok _ _
      rw [if_neg hentry, if_neg hentry]
      by_cases habsent : marker = absentMarker
      · rw [if_pos habsent, if_pos habsent]
        exact ih bs
      · rw [if_neg habsent]
        exact .error _ _

theorem extends_children (id words : Nat) (bs : Bytes) :
    Extends more (readChildren id words bs) (readChildren id words (bs ++ more)) := by
  induction words generalizing bs with
  | zero => exact .ok [] bs
  | succ words ih =>
    rw [readChildren, readChildren]
    refine (extends_word bs).bind fun offset bs => ?_
    dsimp only
    by_cases habsent : offset = -1
    · rw [if_pos habsent, if_pos habsent]
      exact ih bs
    rw [if_neg habsent, if_neg habsent]
    by_cases hneg : offset < 0
    · rw [if_pos hneg]
      exact .error _ _
    · rw [if_neg hneg, if_neg hneg]
      exact (ih bs).bind fun offsets bs => .ok _ _

theorem extends_node (max : Nat) (bs : Bytes) :
    Extends more (takeNode max bs) (takeNode max (bs ++ more)) := by
  unfold takeNode
  refine (extends_word bs).bind fun id bs => ?_
  dsimp only
  by_cases hneg : id < 0
  · rw [if_pos hneg]
    exact .error _ _
  rw [if_neg hneg, if_neg hneg]
  refine (extends_box bs).bind fun box bs => (extends_slots id.toNat max bs).bind fun entries bs =>
    (extends_children id.toNat max bs).bind fun children bs => ?_
  dsimp only
  by_cases hboth : children ≠ [] ∧ entries ≠ []
  · rw [if_pos hboth]
    exact .error _ _
  · rw [if_neg hboth, if_neg hboth]
    exact .ok _ _

end

section

variable {max : Nat} {bs : Bytes} {n : StoredNode}

theorem readNode_eq_ok_iff : readNode max bs = .ok n ↔ ∃ rest, takeNode max bs = .ok (n, rest) := by
  rw [readNode_eq]
  constructor
  · intro h
    cases hread : takeNode max bs with
    | error cause =>
      rw [hread] at h
      cases h
    | ok read =>
      rw [hread] at h
      cases h
      exact ⟨read.2, rfl⟩
  · rintro ⟨rest, h⟩
    rw [h]
    rfl

theorem readNode_extended (h : readNode max bs = .ok n) (more : Bytes) :
    readNode max (bs ++ more) = .ok n := by
  obtain ⟨rest, hread⟩ := readNode_eq_ok_iff.mp h
  exact readNode_eq_ok_iff.mpr ⟨_, extends_node max bs n rest hread⟩

/-- A node that takes all of the bytes is not read from less of them. -/
theorem readNode_cut (h : takeNode max bs = .ok (n, [])) {front back : Bytes}
    (hsplit : front ++ back = bs) (cut : back ≠ []) :
    ∃ cause, readNode max front = .error cause := by
  cases hfront : readNode max front with
  | error cause => exact ⟨cause, rfl⟩
  | ok m =>
    obtain ⟨rest, hread⟩ := readNode_eq_ok_iff.mp hfront
    have hwhole : takeNode max (front ++ back) = .ok (m, rest ++ back) :=
      extends_node max front m rest hread
    rw [hsplit, h, Except.ok.injEq, Prod.mk.injEq] at hwhole
    exact absurd (List.append_eq_nil_iff.mp hwhole.2.symm).2 cut

end

/-! ## The whole file -/

section

variable {file : Bytes} {max offset : Nat}

theorem readNode_drop_extended {n : StoredNode} (h : readNode max (file.drop offset) = .ok n)
    (more : Bytes) : readNode max ((file ++ more).drop offset) = .ok n := by
  rw [List.drop_append_of_le_length (Nat.le_of_lt (offset_lt_of_readNode h))]
  exact readNode_extended h more

theorem gather_extended {queue : List (Nat × Nat)} {visited : List Nat} {a b : Arena}
    (h : gather file max queue visited a = .ok b) (more : Bytes) :
    gather (file ++ more) max queue visited a = .ok b := by
  induction queue, visited, a using gather.induct file max with
  | case1 visited a =>
    rw [Arena.gather_nil] at h ⊢
    exact h
  | case2 visited a p offset queue seen =>
    rw [gather, dif_pos seen] at h
    cases h
  | case3 visited a p offset queue fresh cause hread =>
    rw [gather_of_error fresh hread] at h
    cases h
  | case4 visited a p offset queue fresh n hread ih =>
    rw [Arena.gather_cons fresh hread] at h
    rw [Arena.gather_cons fresh (readNode_drop_extended hread more)]
    exact ih h

/-- The number that a word without a sign bit tells is written as that word. -/
theorem big_of_signed {word : Bytes} {n : Nat} (hlength : word.length = 4)
    (h : Word.signed 4 (Word.ofBig word) = n) : Word.big 4 n = word := by
  have hlt := Word.ofBig_lt word
  rw [hlength] at hlt
  have hn : Word.ofBig word = n := by
    unfold Word.signed at h
    split at h <;> omega
  rw [← hn, ← hlength, Word.big_ofBig]

/-- Nodes are read only behind a preamble with a node size that the format holds. -/
theorem preamble_of_readNodes {a : Arena} (h : readNodes file = .ok (max, a)) :
    preamble max <+: file ∧ max ≤ Word.maxSigned32 ∧
      ∃ root, readNode max (file.drop rootOffset) = .ok root ∧
        gather file max (root.children.map (rootPosition, ·)) [rootOffset] [root.node none] =
          .ok a := by
  unfold readNodes at h
  split at h
  · cases h
  rename_i magic rest hmagic
  split at h
  · cases h
  rename_i heq
  obtain ⟨⟨size, rest'⟩, hsize, h⟩ := bind_eq_ok.mp h
  dsimp only at h
  split at h
  · cases h
  obtain ⟨root, hroot, h⟩ := bind_eq_ok.mp h
  obtain ⟨b, hgather, h⟩ := bind_eq_ok.mp h
  cases h
  have hle := readWord_le hsize
  unfold readWord at hsize
  split at hsize
  case h_2 => cases hsize
  rename_i word rest'' hword
  cases hsize
  obtain ⟨rfl, hlength⟩ := Bytes.split?_eq_some_iff.mp hmagic
  obtain ⟨rfl, hfour⟩ := Bytes.split?_eq_some_iff.mp hword
  have hpreamble : preamble (Word.signed 4 (Word.ofBig word)).toNat = magic ++ word := by
    rw [preamble, not_not.mp heq, big_of_signed hfour (by omega)]
  have hdrop : (magic ++ (word ++ rest')).drop rootOffset = rest' := by
    rw [← List.append_assoc, ← hpreamble, ← length_preamble, List.drop_left]
  refine ⟨⟨rest', by rw [hpreamble, List.append_assoc]⟩, by omega, root, ?_, hgather⟩
  rw [hdrop]
  exact hroot

/-- A file is accepted exactly if it begins with a preamble, a node size that the format holds, and
a root whose queue leads to nodes. -/
theorem ofBytes_eq_ok_iff {t : RTree} :
    ofBytes file = .ok t ↔
      preamble t.maxNodeSize <+: file ∧ t.maxNodeSize ≤ Word.maxSigned32 ∧
      t = ofNodes t.nodes t.maxNodeSize t.two_le ∧
      ∃ root, readNode t.maxNodeSize (file.drop rootOffset) = .ok root ∧
        gather file t.maxNodeSize (root.children.map (rootPosition, ·)) [rootOffset]
          [root.node none] = .ok t.nodes := by
  constructor
  · intro h
    obtain ⟨⟨max, a⟩, hnodes, h⟩ := bind_eq_ok.mp h
    dsimp only at h
    split at h
    case isFalse => cases h
    cases h
    obtain ⟨hpreamble, small, root, hroot, hgather⟩ := preamble_of_readNodes hnodes
    exact ⟨hpreamble, small, rfl, root, hroot, hgather⟩
  · rintro ⟨hpreamble, small, htree, root, hroot, hgather⟩
    rw [ofBytes, Arena.readNodes_eq t.two_le small hpreamble hroot, hgather]
    simp only [Except.map, ok_bind, dif_pos t.two_le]
    exact congrArg Except.ok htree.symm

/-- Bytes behind an index that is accepted change nothing. -/
theorem ofBytes_extended {t : RTree} (h : ofBytes file = .ok t) (more : Bytes) :
    ofBytes (file ++ more) = .ok t := by
  obtain ⟨hpreamble, small, htree, root, hroot, hgather⟩ := ofBytes_eq_ok_iff.mp h
  exact ofBytes_eq_ok_iff.mpr ⟨hpreamble.trans (List.prefix_append file more), small, htree, root,
    readNode_drop_extended hroot more, gather_extended hgather more⟩

end

end RTree

end SpatialSegment
