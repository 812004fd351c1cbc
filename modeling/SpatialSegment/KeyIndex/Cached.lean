import SpatialSegment.KeyIndex

/-!
# An index with its cache and its calls

The key index as its users share it: the file with the call that waits for it, the log behind it,
and the cache, once one has been activated. Stopping the index forgets the cached keys first.
-/

namespace SpatialSegment

structure CachedIndex where
  shared : SharedFile
  log : Log
  cache : Option RecentKeys

namespace CachedIndex

def new (path : Path) (mode : ReadMode) (log : Log) : CachedIndex :=
  ⟨SharedFile.new .keyIndex path mode, log, none⟩

/-- The index as reads see it. -/
def index (x : CachedIndex) : KeyIndex :=
  ⟨x.shared.file, x.log⟩

/-- An answer through the cache, and the index with what the cache has become. -/
def run {α : Type} (x : CachedIndex) (lookup : Lookup α) : Result α × CachedIndex :=
  let (result, cache) := lookup.run.run x.cache
  (result, { x with cache })

def init (fs : FileSystem) (x : CachedIndex) : Result Unit × CachedIndex :=
  let (result, shared) := x.shared.init fs
  (result, { x with shared })

/-- A cache of the given capacity; none for capacity 0. There is at most one. -/
def activate (x : CachedIndex) (capacity : Nat) : Except Failure CachedIndex :=
  if capacity = 0 then .ok x
  else
    match RecentKeys.ofCapacity? capacity, x.cache with
    | none, _ => .error .aborted
    | some _, some _ => .error (.error (.invalidOperation .cacheActive))
    | some cache, none => .ok { x with cache := some cache }

def forgetKeys (x : CachedIndex) : CachedIndex :=
  { x with cache := x.cache.map RecentKeys.clear }

def beginShutdown (x : CachedIndex) : CachedIndex :=
  let x := x.forgetKeys
  { x with shared := x.shared.beginShutdown }

def beginDelete (fs : FileSystem) (x : CachedIndex) : Result FileSystem × CachedIndex :=
  let x := x.forgetKeys
  let (result, shared) := x.shared.beginDelete fs
  (result, { x with shared })

def finish (fs : FileSystem) (x : CachedIndex) : Result FileSystem × CachedIndex :=
  let (result, shared) := x.shared.finish fs
  (result, { x with shared })

/-- Stops an index that nobody uses. -/
def shutdown (x : CachedIndex) : CachedIndex :=
  let x := x.forgetKeys
  { x with shared := { x.shared with file := x.shared.file.shutdown } }

end CachedIndex

end SpatialSegment
