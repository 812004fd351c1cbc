import SpatialSegment.File.Guarded

/-!
# Calls that share a guarded file

Callers of a guarded file run side by side, and other programs change the file system meanwhile. A
call to start the file has two parts: the service moves to starting, and then the file is checked,
after which the service runs or has failed. A call to shut down or delete a running file has two
parts as well: the service moves to stopping, and when nobody uses the file any more it is closed
and, for a deletion, removed. Parts are not divided, and between any two of them other calls may go
on.
-/

namespace SpatialSegment

namespace GuardedFile

/-- The first part of starting. -/
def begin? (f : GuardedFile) : Option GuardedFile :=
  (f.service.transition? .stopped .starting).map fun service => { f with service }

/-- The second part of starting: the outcome of the checks decides how it ends. -/
def comeUp (fs : FileSystem) (f : GuardedFile) : Result Unit × GuardedFile :=
  match f.openChecked fs with
  | .ok view => (.ok (), { f with service := f.service.set .running, view := some view })
  | .error cause => (.error cause, { f with service := f.service.fail cause.message })

/-- A use of the view from end to end: whoever looks at it is a user for that time, and leaves also
when the answer is an error. -/
def visit {α : Type} (f : GuardedFile) (answer : View → Result α) :
    Result (Option α) × GuardedFile :=
  match f.acquire? with
  | none => (.ok none, f)
  | some f =>
    match f.view with
    | some view => ((answer view).map some, f.release)
    | none => (.ok none, f.release)

end GuardedFile

/-- A guarded file with its waiting call, and the file system. -/
structure FileSharing where
  fs : FileSystem
  shared : SharedFile

namespace FileSharing

/-- A call or the next part of one, or what other programs make of the file system. -/
inductive Action where
  | outside (fs : FileSystem)
  | init
  | comeUp
  | acquire
  | release
  | use (answer : FileSystem → View → Result Unit)
  | shutdown
  | delete
  | finish

/-- What comes of a part of a call. -/
inductive Event where
  | idle
  | starting
  | notStopped
  | running
  | failed
  | acquired
  | refused
  | left
  | unmatched
  | read
  | misread
  | unread
  | stopping
  | skipped
  | closed
  | removed
  | resisted
deriving DecidableEq

abbrev file (s : FileSharing) : GuardedFile := s.shared.file

abbrev service (s : FileSharing) : Service := s.file.service

def withFile (s : FileSharing) (file : GuardedFile) : FileSharing :=
  { s with shared := { s.shared with file } }

/-- What a call gives that may have removed the file. -/
def withRemoval (s : FileSharing) (done : Event) :
    Result FileSystem × SharedFile → Event × FileSharing
  | (.ok fs, shared) => (done, { fs, shared })
  | (.error _, shared) => (.resisted, { s with shared })

def step (s : FileSharing) : Action → Event × FileSharing
  | .outside fs => (.idle, { s with fs })
  | .init =>
    match s.file.begin? with
    | some file => (.starting, s.withFile file)
    | none => (.notStopped, s)
  | .comeUp =>
    if s.service.status = .starting then
      match s.file.comeUp s.fs with
      | (.ok _, file) => (.running, s.withFile file)
      | (.error _, file) => (.failed, s.withFile file)
    else (.idle, s)
  | .acquire =>
    match s.shared.acquire? with
    | some shared => (.acquired, { s with shared })
    | none => (.refused, s)
  | .release =>
    (if s.service.isUsed then .left else .unmatched, { s with shared := s.shared.release })
  | .use answer =>
    match s.file.visit (answer s.fs) with
    | (.ok (some _), file) => (.read, s.withFile file)
    | (.ok none, file) => (.unread, s.withFile file)
    | (.error _, file) => (.misread, s.withFile file)
  | .shutdown =>
    (if s.service.isRunning then .stopping else .skipped,
      { s with shared := s.shared.beginShutdown })
  | .delete =>
    s.withRemoval (if s.service.isRunning then .stopping else .removed) (s.shared.beginDelete s.fs)
  | .finish =>
    match s.shared.waiting with
    | none => (.idle, s)
    | some call =>
      if s.service.isUsed then (.idle, s)
      else
        s.withRemoval (match call with | .shutdown => .closed | .delete => .removed)
          (s.shared.finish s.fs)

/-- The parts of calls one after another: what comes of each, and the end. -/
def run (s : FileSharing) : List Action → List Event × FileSharing
  | [] => ([], s)
  | action :: rest =>
    let (event, s) := s.step action
    let (events, s) := s.run rest
    (event :: events, s)

end FileSharing

end SpatialSegment
