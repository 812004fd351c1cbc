import SpatialSegment.Calls
import SpatialSegment.File.Guarded

/-!
# Calls to one file

The calls that users of a guarded file make, and what each is answered. A call to shut down comes in
two parts; the second one has nothing to do while there are users.
-/

namespace SpatialSegment

namespace SharedFile

inductive Call where
  | init
  | acquire
  | release
  | shutdown
  | finish
  | read (offset len : Nat)
  | length
  | service

inductive Answer where
  | done
  | started (result : Result Unit)
  | acquired (taken : Bool)
  | bytes (result : Result (Option Bytes))
  | length (open? : Option Nat)
  | service (service : Service)

def call (fs : FileSystem) (s : SharedFile) : Call → Answer × SharedFile
  | .init =>
    let (result, s) := s.init fs
    (.started result, s)
  | .acquire =>
    match s.acquire? with
    | some s => (.acquired true, s)
    | none => (.acquired false, s)
  | .release => (.done, s.release)
  | .shutdown => (.done, s.beginShutdown)
  | .finish => (.done, (s.finish fs).2)
  | .read offset len => (.bytes (s.file.use fun view => s.file.read fs view offset len), s)
  | .length => (.length s.file.openLen, s)
  | .service => (.service s.file.service, s)

end SharedFile

end SpatialSegment
