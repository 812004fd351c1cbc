import SpatialSegment.File.Calls
import SpatialSegment.KeyIndex.Cached

/-!
# Calls to a log and its key index

The calls that readers of a log and its key index make, and what each is answered. A call to shut
down that goes to the index makes it forget its keys; one that goes to its file alone does not.
-/

namespace SpatialSegment

namespace CachedIndex

inductive Call where
  | file (call : SharedFile.Call)
  | length
  | offsetAt (ordinal : Nat)
  | keyAt (ordinal : Nat)
  | tupleAt (ordinal : Nat)
  | positions (key : String)
  | step (cursor : KeyIndex.Cursor)

inductive Answer where
  | file (answer : SharedFile.Answer)
  | length (records : Nat)
  | offset (result : Result (Option Nat))
  | key (result : Result (Option String))
  | tuple (result : Result (Option Tuple))
  | positions (result : Result (List Nat))
  | item (item : Option (Result Tuple)) (cursor : KeyIndex.Cursor)

def call (fs : FileSystem) (x : CachedIndex) : Call → Answer × CachedIndex
  | .file .shutdown => (.file .done, x.beginShutdown)
  | .file c =>
    let (answer, shared) := x.shared.call fs c
    (.file answer, { x with shared })
  | .length => (.length x.index.length, x)
  | .offsetAt ordinal => (.offset (x.index.offsetAt fs ordinal), x)
  | .keyAt ordinal =>
    let (result, x) := x.run (x.index.keyAt fs ordinal)
    (.key result, x)
  | .tupleAt ordinal => (.tuple (x.index.tupleAt fs ordinal), x)
  | .positions key =>
    let (result, x) := x.run (x.index.positions fs key)
    (.positions result, x)
  | .step cursor =>
    let (item, cursor) := x.index.step fs cursor
    (.item item cursor, x)

/-- A call to the file goes to it as it is, but for one to shut down. -/
theorem call_file (x : CachedIndex) {c : SharedFile.Call} (h : c ≠ .shutdown) :
    x.call fs (.file c) =
      (.file (x.shared.call fs c).1, { x with shared := (x.shared.call fs c).2 }) := by
  cases c with
  | shutdown => exact absurd rfl h
  | _ => rfl

end CachedIndex

/-- A log and its key index, as their readers share them. -/
structure Readers where
  log : SharedFile
  index : SharedFile
  cache : Option RecentKeys

namespace Readers

def new (logPath : Path) (logMode : ReadMode) (indexPath : Path) (indexMode : ReadMode) : Readers :=
  ⟨SharedFile.new .tupleLog logPath logMode, SharedFile.new .keyIndex indexPath indexMode, none⟩

/-- The index with the log behind it. -/
def cachedIndex (r : Readers) : CachedIndex :=
  ⟨r.index, ⟨r.log.file⟩, r.cache⟩

inductive Call where
  | log (call : SharedFile.Call)
  | tupleAt (offset : Nat)
  | keyAt (offset : Nat)
  | scan (key : String)
  | offsets
  | indexFile (call : SharedFile.Call)
  | index (call : CachedIndex.Call)
  | activate (capacity : Nat)
  | cached

inductive Answer where
  | file (answer : SharedFile.Answer)
  | tuple (result : Result (Option Tuple))
  | key (result : Result (Option String))
  | offsets (result : Result (List Nat))
  | index (answer : CachedIndex.Answer)
  | activated (result : Except Failure Unit)
  | cached (cache : Option RecentKeys)

def call (fs : FileSystem) (r : Readers) : Call → Answer × Readers
  | .log c =>
    let (answer, log) := r.log.call fs c
    (.file answer, { r with log })
  | .tupleAt offset => (.tuple (r.cachedIndex.log.tupleAt fs offset), r)
  | .keyAt offset => (.key (r.cachedIndex.log.keyAt fs offset), r)
  | .scan key => (.tuple (r.cachedIndex.log.scan fs key), r)
  | .offsets => (.offsets (r.cachedIndex.log.offsets fs), r)
  | .indexFile c =>
    let (answer, index) := r.index.call fs c
    (.file answer, { r with index })
  | .index c =>
    let (answer, x) := r.cachedIndex.call fs c
    (.index answer, { r with index := x.shared, cache := x.cache })
  | .activate capacity =>
    match r.cachedIndex.activate capacity with
    | .ok x => (.activated (.ok ()), { r with cache := x.cache })
    | .error cause => (.activated (.error cause), r)
  | .cached => (.cached r.cache, r)

end Readers

end SpatialSegment
