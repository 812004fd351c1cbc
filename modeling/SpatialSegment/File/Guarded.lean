import SpatialSegment.File.View
import SpatialSegment.Lifecycle

/-!
# Guarded files

A file of a segment that is open while its service runs. Starting checks the preamble and, where
records have one length, that the rest is whole records. Every read is a use of the service.
Stopping takes two steps: the service moves to stopping, so that no new user comes, and once the
last user has left the view is closed. A call that finds users between the two steps waits for the
second one; `SharedFile` remembers it.
-/

namespace SpatialSegment

structure GuardedFile where
  format : FileFormat
  path : Path
  mode : ReadMode
  service : Service
  view : Option View

namespace GuardedFile

def new (format : FileFormat) (path : Path) (mode : ReadMode) : GuardedFile :=
  ⟨format, path, mode, Service.new, none⟩

/-- A view of the file, once the file has passed all checks. -/
def openChecked (fs : FileSystem) (f : GuardedFile) : Result View := do
  let length := fs.lengthAt f.path
  let view := View.open? fs f.path f.mode
  match view with
  | .error cause => throw (.fileIo f.path 0 cause)
  | .ok view =>
    if length < FileFormat.bodyStart then
      throw (.formatIn f.path (.shortFile length f.format))
    match view.slice fs 0 FileFormat.bodyStart with
    | .error cause => throw (.fileIo f.path 0 cause)
    | .ok magic =>
      if magic ≠ f.format.magic then throw (.formatIn f.path (.preamble f.format))
      match f.format.recordLen with
      | none => return view
      | some recordLen =>
        let body := length - FileFormat.bodyStart
        if body % recordLen ≠ 0 then throw (.formatIn f.path (.body body recordLen))
        return view

/-- Starts a stopped service; the outcome of the checks decides how. -/
def init (fs : FileSystem) (f : GuardedFile) : Result Unit × GuardedFile :=
  match f.service.transition? .stopped .starting with
  | none => (.error (.invalidOperation (.cannotStart f.format f.path f.service.status)), f)
  | some service =>
    match f.openChecked fs with
    | .ok view => (.ok (), { f with service := service.set .running, view := some view })
    | .error cause => (.error cause, { f with service := service.fail cause.message })

def acquire? (f : GuardedFile) : Option GuardedFile :=
  f.service.acquire?.map fun service => { f with service }

def release (f : GuardedFile) : GuardedFile :=
  { f with service := f.service.release }

/-- The first step of stopping. -/
def stop (f : GuardedFile) : GuardedFile :=
  match f.service.transition? .running .stopping with
  | some service => { f with service }
  | none => f

/-- The second step of stopping. -/
def close (f : GuardedFile) : GuardedFile :=
  { f with service := f.service.set .terminated, view := none }

/-- Both steps at once, for a file that nobody uses. -/
def shutdown (f : GuardedFile) : GuardedFile :=
  if f.service.isRunning then f.stop.close else f

/-- A use of the view; nothing if the service does not run. -/
def use {α : Type} (f : GuardedFile) (use : View → Result α) : Result (Option α) :=
  match f.service.acquire?, f.view with
  | some _, some view => (use view).map some
  | _, _ => .ok none

/-- A range of the file, which must lie within the length it had when it was opened. -/
def read (fs : FileSystem) (f : GuardedFile) (view : View) (offset len : Nat) : Result Bytes :=
  if offset + len ≤ view.length then
    (view.slice fs offset len).mapError (.fileIo f.path offset)
  else .error (.formatIn f.path (.range len offset view.length))

def openLen (f : GuardedFile) : Option Nat :=
  f.view.map View.length

/-- The length behind the preamble, 0 if the view is closed. -/
def bodyLen (f : GuardedFile) : Nat :=
  match f.openLen with
  | some length => length - FileFormat.bodyStart
  | none => 0

def diskLen (fs : FileSystem) (f : GuardedFile) : Nat :=
  fs.lengthAt f.path

/-- Takes the file from the file system, if it is there. -/
def removeFile (fs : FileSystem) (path : Path) : Result FileSystem :=
  (fs.removeIfPresent path).mapError (.fileIo path 0)

end GuardedFile

/-- What a waiting call does once the file is closed. -/
inductive Waiting where
  | shutdown
  | delete
deriving DecidableEq, Repr

/-- A guarded file, and the call that has begun to stop it and not come to its end. -/
structure SharedFile where
  file : GuardedFile
  waiting : Option Waiting

namespace SharedFile

def new (format : FileFormat) (path : Path) (mode : ReadMode) : SharedFile :=
  ⟨GuardedFile.new format path mode, none⟩

def init (fs : FileSystem) (s : SharedFile) : Result Unit × SharedFile :=
  let (result, file) := s.file.init fs
  (result, { s with file })

/-- A user comes, if users are taken. -/
def acquire? (s : SharedFile) : Option SharedFile :=
  s.file.acquire?.map fun file => { s with file }

def release (s : SharedFile) : SharedFile :=
  { s with file := s.file.release }

/-- A call to shut down: it begins to stop a running service, and has nothing to do otherwise. -/
def beginShutdown (s : SharedFile) : SharedFile :=
  if s.file.service.isRunning then ⟨s.file.stop, some .shutdown⟩ else s

/-- A call to delete the file: it begins to stop a running service, and otherwise removes the file
at once. -/
def beginDelete (fs : FileSystem) (s : SharedFile) : Result FileSystem × SharedFile :=
  if s.file.service.isRunning then (.ok fs, ⟨s.file.stop, some .delete⟩)
  else (GuardedFile.removeFile fs s.file.path, s)

/-- The end of the waiting call, when nobody uses the file any more. -/
def finish (fs : FileSystem) (s : SharedFile) : Result FileSystem × SharedFile :=
  match s.waiting with
  | none => (.ok fs, s)
  | some call =>
    if s.file.service.isUsed then (.ok fs, s)
    else
      let closed : SharedFile := ⟨s.file.close, none⟩
      match call with
      | .shutdown => (.ok fs, closed)
      | .delete => (GuardedFile.removeFile fs s.file.path, closed)

end SharedFile

end SpatialSegment
