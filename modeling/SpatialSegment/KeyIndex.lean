import SpatialSegment.Log
import SpatialSegment.KeyIndex.Recent
import SpatialSegment.KeyIndex.Search

/-!
# The key index

The offsets of the records of the log in the order of their keys, four bytes each. The key of an
ordinal is that of the record its offset leads to; it may come from a cache. A key is searched for
by halving, which relies on the order but not on its being right: whatever the files hold, a search
ends.

Answers that use the cache run in `Lookup`, where an error keeps what the cache has become.
-/

namespace SpatialSegment

structure KeyIndex where
  file : GuardedFile
  log : Log

/-- Answers that may go through the cache. -/
abbrev Lookup := ExceptT SegmentError (StateM (Option RecentKeys))

namespace KeyIndex

/-- The length of an offset. -/
def recordLen : Nat := 4

/-- The number of records, 0 for a closed index. -/
def length (x : KeyIndex) : Nat :=
  x.file.bodyLen / recordLen

/-- The offset of an ordinal; nothing if the index does not run. -/
def offsetAt (fs : FileSystem) (x : KeyIndex) (ordinal : Nat) : Result (Option Nat) :=
  let position := ordinal * recordLen + FileFormat.bodyStart
  if Word.limit 8 ≤ position then .error (.formatIn x.file.path (.ordinal ordinal))
  else
    x.file.use fun view => do
      let raw ← x.file.read fs view position recordLen
      let offset := Word.signed 4 (Word.ofBig raw)
      if offset < 0 then throw (.formatIn x.file.path (.indexOffset offset ordinal))
      return offset.toNat

/-- The key of an ordinal, read from the log. -/
def loadKey (fs : FileSystem) (x : KeyIndex) (ordinal : Nat) : Result (Option String) := do
  match ← x.offsetAt fs ordinal with
  | some offset => x.log.keyAt fs offset
  | none => return none

/-- The key of an ordinal, through the cache if there is one. -/
def keyAt (fs : FileSystem) (x : KeyIndex) (ordinal : Nat) : Lookup (Option String) :=
  ExceptT.mk fun cache =>
    match cache with
    | none => (x.loadKey fs ordinal, none)
    | some cache =>
      let (result, cache) := cache.fetch ordinal fun _ => x.loadKey fs ordinal
      (result, some cache)

def tupleAt (fs : FileSystem) (x : KeyIndex) (ordinal : Nat) : Result (Option Tuple) := do
  match ← x.offsetAt fs ordinal with
  | some offset => x.log.tupleAt fs offset
  | none => return none

/-- The offsets of the ordinals, unless one of them gives none. -/
def offsetsAt (fs : FileSystem) (x : KeyIndex) : List Nat → Result (Option (List Nat))
  | [] => .ok (some [])
  | ordinal :: rest => do
    match ← x.offsetAt fs ordinal with
    | none => return none
    | some offset =>
      match ← x.offsetsAt fs rest with
      | none => return none
      | some offsets => return some (offset :: offsets)

/-- The offsets of all records with the key, in the order of the index. -/
def positions (fs : FileSystem) (x : KeyIndex) (key : String) : Lookup (List Nat) := do
  match ← KeySearch.positions (x.keyAt fs) key x.length with
  | none => return []
  | some ordinals => return ((← liftExcept (x.offsetsAt fs ordinals)).getD [])
where
  liftExcept {α : Type} (result : Result α) : Lookup α := ExceptT.mk (pure result)

/-! ## Iteration -/

/-- The ordinals that an iteration has still to visit. -/
structure Cursor where
  next : Nat
  stop : Nat

def cursor (x : KeyIndex) : Cursor := ⟨0, x.length⟩

/-- How many items may still come. -/
def Cursor.remaining (c : Cursor) : Nat := c.stop - c.next

/-- The next item. A record that cannot be read is the last item, and an index or log that has been
closed has none. -/
def step (fs : FileSystem) (x : KeyIndex) (c : Cursor) : Option (Result Tuple) × Cursor :=
  if c.next < c.stop then
    match x.tupleAt fs c.next with
    | .ok (some tuple) => (some (.ok tuple), ⟨c.next + 1, c.stop⟩)
    | .ok none => (none, ⟨c.stop, c.stop⟩)
    | .error cause => (some (.error cause), ⟨c.stop, c.stop⟩)
  else (none, c)

/-- All items that still come. -/
def drain (fs : FileSystem) (x : KeyIndex) (c : Cursor) : List (Result Tuple) :=
  if c.next < c.stop then
    match x.tupleAt fs c.next with
    | .ok (some tuple) => .ok tuple :: drain fs x ⟨c.next + 1, c.stop⟩
    | .ok none => []
    | .error cause => [.error cause]
  else []
termination_by c.stop - c.next

/-- The first items, at most `count`, and the cursor behind them. -/
def takeItems (fs : FileSystem) (x : KeyIndex) (c : Cursor) : Nat → List (Result Tuple) × Cursor
  | 0 => ([], c)
  | count + 1 =>
    match x.step fs c with
    | (none, c) => ([], c)
    | (some item, c) =>
      let (items, c) := x.takeItems fs c count
      (item :: items, c)

end KeyIndex

end SpatialSegment
