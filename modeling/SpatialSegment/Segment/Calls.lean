import SpatialSegment.Calls
import SpatialSegment.Segment

/-!
# Calls to an open segment

The calls that users of a segment make, and what each is answered. An iteration is a cursor that its
user keeps; between two of its steps any other calls may come. Other programs may do anything to the
file system.
-/

namespace SpatialSegment

namespace Segment

/-- A segment in use, with the cursors of the iterations that have been begun. -/
structure Session where
  fs : FileSystem
  segment : Segment
  iterations : List KeyIndex.Cursor

namespace Session

def start (fs : FileSystem) (segment : Segment) : Session := ⟨fs, segment, []⟩

inductive Call where
  | tuplesOf (key : String)
  | tuplesIn (region : Box)
  | tupleAt (ordinal : Nat)
  | items
  | iterate
  | next (iteration : Nat)
  | summary
  | acquire
  | release
  | requestDeletion
  | shutdown
  | outside (fs : FileSystem)

inductive Answer where
  | tuples (result : Except Failure (List Tuple))
  | tuple (result : Except Failure (Option Tuple))
  | items (items : List (Result Tuple))
  | item (item : Option (Result Tuple))
  | summary (summary : Summary)
  | acquired (acquired : Bool)
  | done

def call (s : Session) : Call → Answer × Session
  | .tuplesOf key =>
    let (result, segment) := (Segment.tuplesOf s.fs key).run.run s.segment
    (.tuples result, { s with segment })
  | .tuplesIn region =>
    let (result, segment) := (Segment.tuplesIn s.fs region).run.run s.segment
    (.tuples result, { s with segment })
  | .tupleAt ordinal =>
    let (result, segment) := (Segment.tupleAt s.fs ordinal).run.run s.segment
    (.tuple result, { s with segment })
  | .items => (.items (s.segment.items s.fs), s)
  | .iterate => (.done, { s with iterations := s.iterations ++ [s.segment.index.index.cursor] })
  | .next iteration =>
    match s.iterations[iteration]? with
    | none => (.item none, s)
    | some cursor =>
      let (item, cursor) := s.segment.index.index.step s.fs cursor
      (.item item, { s with iterations := s.iterations.set iteration cursor })
  | .summary => (.summary s.segment.summary, s)
  | .acquire =>
    match s.segment.acquire? with
    | none => (.acquired false, s)
    | some segment => (.acquired true, { s with segment })
  | .release =>
    let (fs, segment) := s.segment.release s.fs
    (.done, { s with fs, segment })
  | .requestDeletion =>
    let (fs, segment) := s.segment.requestDeletion s.fs
    (.done, { s with fs, segment })
  | .shutdown => (.done, { s with segment := s.segment.shutdown })
  | .outside fs => (.done, { s with fs })

end Session

end Segment

end SpatialSegment
