import SpatialSegment.Proofs.RTree.Gathered

/-!
# Reading with a cursor

The reader goes by positions: it seeks the offset of a node, reads on from there, and lists the node
with the one whose place came up in the queue. Here it is written a second time over a cursor, with
all the ends that it might have. As a least fixed point it may have none; it passes on a fault of
the input; and it aborts where a position leads to no node and where a number or a count grows
beyond its word. Of all these it takes none but a fault of the format.

The input is in memory. Any position can be sought in it, also one past the end, and a read of it
fails only if too few bytes are left.
-/

namespace SpatialSegment

namespace RTree

/-- An input in memory, and the position that is read next. It may lie past the end. -/
structure Cursor where
  bytes : Bytes
  position : Nat

namespace Cursor

def rest (c : Cursor) : Bytes := c.bytes.drop c.position

/-- So many bytes, if there are as many. -/
def fill (n : Nat) (c : Cursor) : Except IoFault (Bytes × Cursor) :=
  match Bytes.split? n c.rest with
  | some (bytes, _) => .ok (bytes, { c with position := c.position + n })
  | none => .error .unfilledBuffer

end Cursor

/-- A part of the reader: what it reads and where the cursor is then, or how it ends. -/
abbrev Reading := StateT Cursor (Except Failure)

namespace Reading

variable {α : Type}

def refuse (cause : FormatFault) : Reading α := fun _ => .error (.error (.format cause))

/-- Too few bytes are a fault of the format; any other fault is one of the input. -/
def exactly (n : Nat) : Reading Bytes := fun c =>
  match c.fill n with
  | .ok read => .ok read
  | .error .unfilledBuffer => .error (.error (.format .shortSpatialIndex))
  | .error cause => .error (.error (.io cause))

/-- So many bytes, or as many as there are. -/
def upTo (n : Nat) : Reading Bytes := fun c =>
  let bytes := c.rest.take n
  .ok (bytes, { c with position := c.position + bytes.length })

def word : Reading Int := do
  let bytes ← exactly 4
  return Word.signed 4 (Word.ofBig bytes)

def byte : Reading UInt8 := do
  let bytes ← exactly 1
  return bytes.headD 0

def box : Reading Box := do
  let length ← word
  if length < 0 then refuse (.negativeLength "bounding box" length)
  else do
    let bytes ← upTo length.toNat
    if bytes.length = length.toNat then
      match Box.ofBytes bytes with
      | .ok box => return box
      | .error cause => refuse cause
    else refuse .shortBox

def entry : Reading Entry := do
  let offset ← word
  if offset < 0 then refuse (.entryOffset offset)
  else do
    let box ← box
    return ⟨box, offset.toNat⟩

def slots (id : Nat) : (slots : Nat) → Reading (List Entry)
  | 0 => return []
  | n + 1 => do
    let marker ← byte
    if marker = entryMarker then do
      let e ← entry
      let entries ← slots id n
      return e :: entries
    else if marker = absentMarker then slots id n
    else refuse (.entryMarker marker id)

def children (id : Nat) : (words : Nat) → Reading (List Nat)
  | 0 => return []
  | n + 1 => do
    let offset ← word
    if offset = -1 then children id n
    else if offset < 0 then refuse (.childOffset offset id)
    else do
      let offsets ← children id n
      return offset.toNat :: offsets

def node (max : Nat) : Reading StoredNode := do
  let id ← word
  if id < 0 then refuse (.nodeId id)
  else do
    let id := id.toNat
    let box ← box
    let entries ← slots id max
    let children ← children id max
    if children ≠ [] ∧ entries ≠ [] then refuse (.entriesAndChildren id)
    else return { id, box, entries, children }

def nodeSize : Reading Nat := do
  let size ← word
  if size < 2 then refuse (.nodeSize size) else return size.toNat

/-- The node size behind the magic bytes. -/
def preamble : Reading Nat := do
  let magic ← exactly FileFormat.bodyStart
  if magic ≠ FileFormat.spatialIndex.magic then refuse .spatialPreamble else nodeSize

end Reading

/-- What certainly comes to its end. -/
def ended {α : Type} (result : Except Failure α) : ExceptT Failure Option α :=
  ExceptT.mk (some result)

/-- Reading goes on with the nodes of the queue. It is aborted where no node is at the position that
has waited. -/
def Arena.readOn (a : Arena) (max : Nat) (queue : List (Nat × Nat)) (visited : List Nat)
    (c : Cursor) : ExceptT Failure Option Arena :=
  match queue with
  | [] => ended (.ok a)
  | (parent, offset) :: queue =>
    if offset ∈ visited then ended (.error (.error (.format (.sharedNode offset))))
    else
      match Reading.node max { c with position := offset } with
      | .error failure => ended (.error failure)
      | .ok (n, c) =>
        if parent < a.length + 1 then
          a.hang parent (n.node (some parent)) |>.readOn max
            (queue ++ n.children.map (a.length, ·)) (offset :: visited) c
        else ended (.error .aborted)
partial_fixpoint

/-- The index of the nodes. It is aborted where the number or the length that follow from them are
beyond their words. -/
def assemble (a : Arena) (max : Nat) (two_le : 2 ≤ max) : Except Failure RTree :=
  let t := ofNodes a max two_le
  if t.nextId < Word.limit 4 ∧ t.length < Word.limit 8 then .ok t else .error .aborted

/-- The index that an input holds. -/
def Cursor.index (c : Cursor) : ExceptT Failure Option RTree := do
  let (max, c) ← ended (Reading.preamble c)
  let (root, next) ← ended (Reading.node max c)
  let nodes ← Arena.readOn [root.node none] max (root.children.map (rootPosition, ·)) [c.position]
    next
  if two_le : 2 ≤ max then ended (assemble nodes max two_le)
  else ended (.error (.error (.format (.nodeSize max))))

/-! ## The parts of a node -/

/-- Both readers find the same fault, or what the one leaves at its position is what the other has.
-/
inductive Agrees {α β : Type} (file : Bytes) (left : α → Nat → β) :
    Except Failure (α × Cursor) → Except FormatFault β → Prop where
  | ok (a : α) (position : Nat) :
    Agrees file left (.ok (a, ⟨file, position⟩)) (.ok (left a position))
  | error (cause : FormatFault) : Agrees file left (.error (.error (.format cause))) (.error cause)

/-- A value, and the bytes behind a position. -/
abbrev behind {α : Type} (file : Bytes) (a : α) (position : Nat) : α × Bytes :=
  (a, file.drop position)

section

variable {file : Bytes} {α β γ δ : Type}

theorem Agrees.bind {left : α → Nat → β} {left' : γ → Nat → δ} {x : Except Failure (α × Cursor)}
    {y : Except FormatFault β} {f : α × Cursor → Except Failure (γ × Cursor)}
    {g : β → Except FormatFault δ} (h : Agrees file left x y)
    (rest : ∀ a position, Agrees file left' (f (a, ⟨file, position⟩)) (g (left a position))) :
    Agrees file left' (x >>= f) (y >>= g) := by
  cases h with
  | ok a position => exact rest a position
  | error cause => exact .error cause

theorem Agrees.eq_error {left : α → Nat → β} {x : Except Failure (α × Cursor)} {cause : FormatFault}
    (h : Agrees file left x (.error cause)) : x = .error (.error (.format cause)) := by
  cases h
  rfl

theorem Agrees.exists_ok {left : α → Nat → β} {x : Except Failure (α × Cursor)} {b : β}
    (h : Agrees file left x (.ok b)) :
    ∃ a position, left a position = b ∧ x = .ok (a, ⟨file, position⟩) := by
  cases h
  exact ⟨_, _, rfl, rfl⟩

theorem rest_of_split? {n : Nat} (position : Nat) {head rest : Bytes}
    (h : Bytes.split? n (file.drop position) = some (head, rest)) :
    rest = file.drop (position + n) := by
  obtain ⟨heq, rfl⟩ := Bytes.split?_eq_some_iff.mp h
  rw [← List.drop_drop, heq, List.drop_left]

theorem exactly_eq (n position : Nat) : Reading.exactly n ⟨file, position⟩ =
    match Bytes.split? n (file.drop position) with
    | some (bytes, _) => .ok (bytes, ⟨file, position + n⟩)
    | none => .error (.error (.format .shortSpatialIndex)) := by
  rw [Reading.exactly, Cursor.fill, Cursor.rest]
  cases Bytes.split? n (file.drop position) with
  | none => rfl
  | some split => rfl

theorem word_of_readWord {position : Nat} {word : Int} {rest : Bytes}
    (h : readWord (file.drop position) = .ok (word, rest)) :
    rest = file.drop (position + 4) ∧
      Reading.word ⟨file, position⟩ = .ok (word, ⟨file, position + 4⟩) := by
  unfold readWord at h
  split at h
  · rename_i hsplit
    cases h
    refine ⟨rest_of_split? position hsplit, ?_⟩
    change (Reading.exactly 4 ⟨file, position⟩ >>= _) = _
    rw [exactly_eq, hsplit]
    rfl
  · cases h

theorem agrees_word (position : Nat) :
    Agrees file (behind file) (Reading.word ⟨file, position⟩) (readWord (file.drop position)) := by
  cases h : readWord (file.drop position) with
  | error cause =>
    unfold readWord at h
    split at h
    · cases h
    · rename_i hsplit
      cases h
      change Agrees file (behind file) (Reading.exactly 4 ⟨file, position⟩ >>= _) _
      rw [exactly_eq, hsplit]
      exact .error _
  | ok read =>
    obtain ⟨hrest, hword⟩ := word_of_readWord h
    rw [hword, ← Prod.eta read, hrest]
    exact .ok _ _

theorem byte_eq (position : Nat) : Reading.byte ⟨file, position⟩ =
    match file.drop position with
    | [] => .error (.error (.format .shortSpatialIndex))
    | byte :: _ => .ok (byte, ⟨file, position + 1⟩) := by
  change (Reading.exactly 1 ⟨file, position⟩ >>= _) = _
  rw [exactly_eq]
  cases file.drop position <;> rfl

theorem agrees_box (position : Nat) :
    Agrees file (behind file) (Reading.box ⟨file, position⟩) (readBox (file.drop position)) := by
  unfold Reading.box readBox
  refine (agrees_word position).bind fun length position => ?_
  dsimp only [behind]
  by_cases hneg : length < 0
  · simp only [hneg, if_true]
    exact .error _
  · simp only [hneg, if_false]
    change Agrees file (behind file)
      ((if ((file.drop position).take length.toNat).length = length.toNat then _
        else Reading.refuse .shortBox : Reading Box) _) _
    by_cases hfull : ((file.drop position).take length.toNat).length = length.toNat
    · simp only [Bytes.split?, Cursor.rest, hfull, if_true]
      cases Box.ofBytes ((file.drop position).take length.toNat) with
      | error cause => exact .error _
      | ok box =>
        rw [List.drop_drop]
        exact .ok _ _
    · simp only [Bytes.split?, hfull, if_false]
      exact .error _

theorem agrees_entry (position : Nat) :
    Agrees file (behind file) (Reading.entry ⟨file, position⟩)
      (readEntry (file.drop position)) := by
  unfold Reading.entry readEntry
  refine (agrees_word position).bind fun offset position => ?_
  dsimp only [behind]
  by_cases hneg : offset < 0
  · simp only [hneg, if_true]
    exact .error _
  · simp only [hneg, if_false]
    exact (agrees_box position).bind fun box position => .ok _ _

theorem agrees_slots (id n position : Nat) :
    Agrees file (behind file) (Reading.slots id n ⟨file, position⟩)
      (readSlots id n (file.drop position)) := by
  induction n generalizing position with
  | zero => exact .ok _ _
  | succ n ih =>
    rw [Reading.slots]
    change Agrees file (behind file) (Reading.byte ⟨file, position⟩ >>= _) _
    rw [byte_eq]
    cases hrest : file.drop position with
    | nil => exact .error _
    | cons marker rest =>
      obtain rfl : rest = file.drop (position + 1) := by
        rw [← List.drop_drop, hrest]
        rfl
      rw [readSlots, ok_bind]
      dsimp only [behind]
      by_cases hentry : marker = entryMarker
      · simp only [hentry, if_true]
        refine (agrees_entry (position + 1)).bind fun e position => ?_
        exact (ih position).bind fun entries position => .ok _ _
      · by_cases habsent : marker = absentMarker
        · simp only [if_neg hentry, if_pos habsent]
          exact ih (position + 1)
        · simp only [if_neg hentry, if_neg habsent]
          exact .error _

theorem agrees_children (id words position : Nat) :
    Agrees file (behind file) (Reading.children id words ⟨file, position⟩)
      (readChildren id words (file.drop position)) := by
  induction words generalizing position with
  | zero => exact .ok _ _
  | succ words ih =>
    rw [Reading.children, readChildren]
    refine (agrees_word position).bind fun offset position => ?_
    dsimp only [behind]
    by_cases habsent : offset = -1
    · simp only [habsent, if_true]
      exact ih position
    · by_cases hneg : offset < 0
      · simp only [habsent, hneg, if_true, if_false]
        exact .error _
      · simp only [habsent, hneg, if_false]
        exact (ih position).bind fun offsets position => .ok _ _

theorem agrees_node (max position : Nat) :
    Agrees file (fun n _ => n) (Reading.node max ⟨file, position⟩)
      (readNode max (file.drop position)) := by
  unfold Reading.node readNode
  refine (agrees_word position).bind fun id position => ?_
  dsimp only [behind]
  by_cases hneg : id < 0
  · simp only [hneg, if_true]
    exact .error _
  · simp only [hneg, if_false]
    refine (agrees_box position).bind fun box position => ?_
    refine (agrees_slots id.toNat max position).bind fun entries position => ?_
    refine (agrees_children id.toNat max position).bind fun children position => ?_
    dsimp only [behind]
    by_cases hboth : children ≠ [] ∧ entries ≠ []
    · rw [if_pos hboth, if_pos hboth]
      exact .error _
    · rw [if_neg hboth, if_neg hboth]
      exact .ok _ _

/-! ## The nodes of the queue -/

/-- A fault of the format as an end of the reader. -/
def formatOnly (x : Except FormatFault α) : Except Failure α :=
  x.mapError fun cause => .error (.format cause)

variable {max : Nat}

theorem ended_ok_bind (a : α) (f : α → ExceptT Failure Option β) : (ended (.ok a) >>= f) = f a :=
  rfl

/-- While every position that waits has its node, nothing is aborted, and the end is that of the
plain reader. -/
theorem Growing.readOn_eq {queue : List (Nat × Nat)} {visited : List Nat} {a : Arena}
    (growing : Growing file max queue visited a) (position : Nat) :
    Arena.readOn a max queue visited ⟨file, position⟩ =
      ended (formatOnly (gather file max queue visited a)) := by
  induction queue, visited, a using gather.induct file max generalizing position with
  | case1 visited a =>
    rw [Arena.readOn, Arena.gather_nil]
    rfl
  | case2 visited a p offset queue seen =>
    rw [Arena.readOn, gather, if_pos seen, dif_pos seen]
    rfl
  | case3 visited a p offset queue fresh cause hread =>
    have hnode : Agrees file _ _ _ := agrees_node max offset
    rw [hread] at hnode
    rw [Arena.readOn, gather_of_error fresh hread, if_neg fresh, hnode.eq_error]
    rfl
  | case4 visited a p offset queue fresh n hread ih =>
    have hnode : Agrees file _ _ _ := agrees_node max offset
    rw [hread] at hnode
    obtain ⟨_, next, rfl, hok⟩ := hnode.exists_ok
    have hlt : p < a.length := growing.lt List.mem_cons_self
    rw [Arena.readOn, Arena.gather_cons fresh hread, if_neg fresh, hok]
    dsimp only
    rw [if_pos (Nat.lt_succ_of_lt hlt)]
    exact ih (growing.step fresh hread) next

/-! ## The whole input -/

theorem assemble_eq {queue : List (Nat × Nat)} {visited : List Nat} {a : Arena}
    (growing : Growing file max queue visited a) (small : max ≤ Word.maxSigned32)
    (two_le : 2 ≤ max) : assemble a max two_le = .ok (ofNodes a max two_le) :=
  if_pos (growing.assembled small two_le)

/-- Either both readers find the same fault in front of the root, or both go on with the root. -/
theorem preamble_cases (file : Bytes) :
    (∃ cause, readNodes file = .error cause ∧
      Reading.preamble ⟨file, 0⟩ = .error (.error (.format cause))) ∨
    ∃ max, 2 ≤ max ∧ max ≤ Word.maxSigned32 ∧
      Reading.preamble ⟨file, 0⟩ = .ok (max, ⟨file, rootOffset⟩) ∧
      readNodes file = (do
        let root ← readNode max (file.drop rootOffset)
        let nodes ← gather file max (root.children.map (rootPosition, ·)) [rootOffset]
          [root.node none]
        return (max, nodes)) := by
  have hpreamble : Reading.preamble ⟨file, 0⟩ =
      (Reading.exactly FileFormat.bodyStart ⟨file, 0⟩ >>= fun read =>
        (if read.1 ≠ FileFormat.spatialIndex.magic then Reading.refuse .spatialPreamble
          else Reading.nodeSize) read.2) := rfl
  have hsize : Reading.nodeSize ⟨file, FileFormat.bodyStart⟩ =
      (Reading.word ⟨file, FileFormat.bodyStart⟩ >>= fun read =>
        (if read.1 < 2 then Reading.refuse (.nodeSize read.1)
          else return read.1.toNat) read.2) := rfl
  rw [hpreamble, exactly_eq, List.drop_zero, readNodes]
  cases hsplit : Bytes.split? FileFormat.bodyStart file with
  | none => exact .inl ⟨_, rfl, rfl⟩
  | some split =>
    obtain ⟨magic, rest⟩ := split
    obtain rfl : rest = file.drop FileFormat.bodyStart := rest_of_split? 0 hsplit
    simp only [ok_bind, Nat.zero_add]
    by_cases hmagic : magic ≠ FileFormat.spatialIndex.magic
    · rw [if_pos hmagic, if_pos hmagic]
      exact .inl ⟨_, rfl, rfl⟩
    rw [if_neg hmagic, if_neg hmagic, hsize]
    have hword : Agrees file _ _ _ := agrees_word FileFormat.bodyStart
    cases hread : readWord (file.drop FileFormat.bodyStart) with
    | error cause =>
      rw [hread] at hword
      rw [hword.eq_error]
      exact .inl ⟨cause, rfl, rfl⟩
    | ok read =>
      obtain ⟨size, rest⟩ := read
      have hle := readWord_le hread
      obtain ⟨rfl, hok⟩ := word_of_readWord hread
      rw [hok]
      simp only [ok_bind]
      by_cases hfew : size < 2
      · rw [if_pos hfew, if_pos hfew]
        exact .inl ⟨_, rfl, rfl⟩
      · rw [if_neg hfew, if_neg hfew]
        exact .inr ⟨size.toNat, by omega, by omega, rfl, rfl⟩

/-- A reader with a cursor comes to its end on every input, with a fault of the format or with the
index of the nodes that the queue has led to. -/
theorem index_cases (file : Bytes) :
    (∃ cause, ofBytes file = .error cause ∧
      Cursor.index ⟨file, 0⟩ = ended (.error (.error (.format cause)))) ∨
    ∃ max two_le visited a, Growing file max [] visited a ∧
      ofBytes file = .ok (ofNodes a max two_le) ∧
      Cursor.index ⟨file, 0⟩ = ended (.ok (ofNodes a max two_le)) := by
  obtain ⟨cause, hnodes, hpreamble⟩ | ⟨max, two_le, small, hpreamble, hnodes⟩ :=
    preamble_cases file
  · refine .inl ⟨cause, ?_, ?_⟩
    · rw [ofBytes, hnodes]
      rfl
    · rw [Cursor.index, hpreamble]
      rfl
  rw [ofBytes, hnodes, Cursor.index, hpreamble, ended_ok_bind]
  dsimp only
  have hnode : Agrees file _ _ _ := agrees_node max rootOffset
  cases hroot : readNode max (file.drop rootOffset) with
  | error cause =>
    rw [hroot] at hnode
    rw [hnode.eq_error]
    exact .inl ⟨cause, rfl, rfl⟩
  | ok root =>
    have growing := growing_root hroot
    rw [hroot] at hnode
    obtain ⟨root, next, rfl, hok⟩ := hnode.exists_ok
    rw [hok, ended_ok_bind, ok_bind]
    dsimp only
    rw [growing.readOn_eq next]
    cases hgather : gather file max (root.children.map (rootPosition, ·)) [rootOffset]
        [root.node none] with
    | error cause => exact .inl ⟨cause, rfl, rfl⟩
    | ok a =>
      obtain ⟨visited, grown⟩ := growing.of_gather hgather
      refine .inr ⟨max, two_le, visited, a, grown, ?_, ?_⟩
      · simp only [ok_bind, pure, Except.pure, dif_pos two_le]
      · change (if two_le : 2 ≤ max then _ else _) = _
        rw [dif_pos two_le, assemble_eq grown small]

/-- The cursor comes to the end that the plain reader comes to. -/
theorem index_of_error {cause : FormatFault} (h : ofBytes file = .error cause) :
    (Cursor.index ⟨file, 0⟩).run = some (.error (.error (.format cause))) := by
  rcases index_cases file with ⟨cause', hread, hindex⟩ | ⟨max, two_le, visited, a, -, hread, -⟩
  · rw [h, Except.error.injEq] at hread
    rw [hindex, hread]
    rfl
  · rw [h] at hread
    cases hread

theorem index_of_ok {t : RTree} (h : ofBytes file = .ok t) :
    (Cursor.index ⟨file, 0⟩).run = some (.ok t) := by
  rcases index_cases file with ⟨cause, hread, -⟩ | ⟨max, two_le, visited, a, -, hread, hindex⟩
  · rw [h] at hread
    cases hread
  · rw [h, Except.ok.injEq] at hread
    rw [hindex, hread]
    rfl

end

end RTree

end SpatialSegment
