import SpatialSegment.Tuple

/-!
# Summary of a segment

The number of tuples, the oldest and the newest version, the latest time of receipt, and the least
box around all boxes. A summary grows tuple by tuple and refuses a tuple whose box has another
dimension than those before. Without tuples all times are 0.

Its bytes are words of eight bytes, least significant byte first: number, the three times, the
number of coordinates, and the coordinates. Reading ignores bytes behind them, and reads all
coordinates before it looks whether they form a box.
-/

namespace SpatialSegment

structure Summary where
  tuples : UInt64
  oldestVersion : Int64
  newestVersion : Int64
  newestReceived : Int64
  box : Box
deriving DecidableEq

namespace Summary

/-- The times of at least one tuple. -/
structure Times where
  oldestVersion : Int64
  newestVersion : Int64
  newestReceived : Int64

def Times.ofTuple (t : Tuple) : Times :=
  ⟨t.version, t.version, t.received⟩

def Times.add (times : Times) (t : Tuple) : Times where
  oldestVersion := min times.oldestVersion t.version
  newestVersion := max times.newestVersion t.version
  newestReceived := max times.newestReceived t.received

/-- A summary that is still growing. -/
structure Draft where
  tuples : UInt64
  times : Option Times
  box : Box

def Draft.empty : Draft := ⟨0, none, Box.fullSpace⟩

def Draft.add (d : Draft) (t : Tuple) : Except ArgumentFault Draft := do
  let box ← d.box.merge t.box
  return { tuples := d.tuples + 1
           times := some (match d.times with
             | none => Times.ofTuple t
             | some times => times.add t)
           box }

def Draft.finish (d : Draft) : Summary :=
  match d.times with
  | none => ⟨d.tuples, 0, 0, 0, d.box⟩
  | some times =>
    ⟨d.tuples, times.oldestVersion, times.newestVersion, times.newestReceived, d.box⟩

/-- The summary of all tuples. -/
def ofTuples (tuples : List Tuple) : Except ArgumentFault Summary :=
  (tuples.foldlM Draft.add Draft.empty).map Draft.finish

def toBytes (s : Summary) : Bytes :=
  Word.little 8 s.tuples.toNat ++ Word.little 8 s.oldestVersion.toUInt64.toNat ++
    Word.little 8 s.newestVersion.toUInt64.toNat ++
    Word.little 8 s.newestReceived.toUInt64.toNat ++ Word.little 8 s.box.coords.length ++
    s.box.coords.flatMap fun c => Word.little 8 c.bits.toNat

/-- A word of eight bytes, and the rest. -/
def readWord (rest : Bytes) : Except SummaryFault (UInt64 × Bytes) :=
  match Bytes.split? 8 rest with
  | some (word, rest) => .ok (UInt64.ofNat (Word.ofLittle word), rest)
  | none => .error (.cutOff (8 - rest.length))

def readCoords : (count : Nat) → Bytes → Except SummaryFault (List Coord × Bytes)
  | 0, rest => .ok ([], rest)
  | count + 1, rest => do
    let (bits, rest) ← readWord rest
    let (coords, rest) ← readCoords count rest
    return (⟨bits⟩ :: coords, rest)

def read (bs : Bytes) : Except SummaryFault Summary := do
  let (tuples, rest) ← readWord bs
  let (oldest, rest) ← readWord rest
  let (newest, rest) ← readWord rest
  let (received, rest) ← readWord rest
  let (count, rest) ← readWord rest
  let (coords, _) ← readCoords count.toNat rest
  match Box.ofCoords coords with
  | .ok box => return ⟨tuples, oldest.toInt64, newest.toInt64, received.toInt64, box⟩
  | .error cause => throw (.box cause)

def ofBytes (bs : Bytes) : Except FormatFault Summary :=
  (read bs).mapError .summary

end Summary

end SpatialSegment
