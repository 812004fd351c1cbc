import SpatialSegment.Segment

/-!
# Calls that share a segment

Callers of a segment run side by side. A call to leave it or to delete it has parts: first the count
or the request, then the look at deletion. The one call that takes the deletion on goes on to close
the readers and to remove the files one by one; a file that resists stays. Parts are not divided,
and between any two of them other calls may go on.
-/

namespace SpatialSegment

namespace Segment

/-- What a call that is under way has still to do. -/
inductive Task where
  | settle
  | close
  | remove (paths : List Path)
deriving DecidableEq

/-- The first part of a call, or the next part of one that is under way. -/
inductive Action where
  | acquire
  | release
  | requestDeletion
  | proceed (call : Nat)

/-- What comes of a part of a call. -/
inductive Event where
  | acquired
  | refused
  | left
  | unmatched
  | asked
  | notDue
  | claimed
  | closed
  | removed (path : Path)
  | resisted (path : Path) (cause : IoFault)
  | finished
  | idle
deriving DecidableEq

/-- A segment, the file system, and the calls under way, the latest last. -/
structure Sharing where
  fs : FileSystem
  segment : Segment
  calls : List Task

namespace Sharing

def withUsage (s : Sharing) (usage : Usage) : Sharing :=
  { s with segment := { s.segment with usage } }

/-- The next part of the call at a place among those under way. -/
def proceed (s : Sharing) (call : Nat) : Task → Event × Sharing
  | .settle =>
    match s.segment.usage.claimDeletion? with
    | none => (.notDue, { s with calls := s.calls.eraseIdx call })
    | some usage => (.claimed, { s.withUsage usage with calls := s.calls.set call .close })
  | .close =>
    (.closed, { s with segment := s.segment.shutdown
                       calls := s.calls.set call (.remove s.segment.files.removalOrder) })
  | .remove [] => (.finished, { s with calls := s.calls.eraseIdx call })
  | .remove (path :: rest) =>
    let calls := s.calls.set call (.remove rest)
    match s.fs.removeIfPresent path with
    | .ok fs => (.removed path, { s with fs, calls })
    | .error cause => (.resisted path cause, { s with calls })

def step (s : Sharing) : Action → Event × Sharing
  | .acquire =>
    match s.segment.acquire? with
    | some segment => (.acquired, { s with segment })
    | none => (.refused, s)
  | .release =>
    match s.segment.usage.leave? with
    | some usage => (.left, { s.withUsage usage with calls := s.calls ++ [.settle] })
    | none => (.unmatched, s)
  | .requestDeletion =>
    (.asked, { s.withUsage s.segment.usage.askDeletion with calls := s.calls ++ [.settle] })
  | .proceed call =>
    match s.calls[call]? with
    | some task => s.proceed call task
    | none => (.idle, s)

/-- The parts of calls one after another: what comes of each, and the end. -/
def run (s : Sharing) : List Action → List Event × Sharing
  | [] => ([], s)
  | action :: rest =>
    let (event, s) := s.step action
    let (events, s) := s.run rest
    (event :: events, s)

end Sharing

end Segment

end SpatialSegment
