import SpatialSegment.Error

/-!
# Files and directories

A file system maps locations to directories and files. A location is a list of names below one of
two directories that are always there: the root, and the directory that relative paths start from.
The latter lies in the root, under a name that no path uses. Files have an identity apart from their
location: a file that is replaced by a new one keeps its content for those who have it open, and a
file whose content is replaced has the new content for everyone.

A path is followed step by step, and every step but the last must lead to a directory. Names and
paths have a greatest length in bytes, and no text with a zero byte is a path. There are no links
and no permissions. Operations either do what they say or change nothing, except that directories
made on the way to one that cannot be made stay.
-/

namespace SpatialSegment

/-- What is at a location. -/
inductive Place where
  | directory
  | file (id : Nat)
deriving DecidableEq, Repr

/-- Names below the root or below the directory that relative paths start from. -/
structure Location where
  atRoot : Bool
  names : List String
deriving DecidableEq, Repr

namespace Location

def below (l : Location) (name : String) : Location :=
  { l with names := l.names ++ [name] }

/-- The directory that a location lies in; the root lies in itself. -/
def above (l : Location) : Location :=
  if l.names = [] then ⟨true, []⟩ else { l with names := l.names.dropLast }

end Location

/-- A path that may be followed: where it starts, its steps with the last one first, and whether it
asks for a directory. -/
structure Route where
  start : Location
  steps : List PathStep
  wantsDirectory : Bool

namespace Route

/-- The greatest length of a name, in bytes. -/
def maxNameLen : Nat := 255

/-- The greatest length of a path, in bytes. -/
def maxPathLen : Nat := 4095

def ofPath (p : Path) : Except IoFault Route :=
  if p.text.toList.contains '\x00' then .error .zeroInName
  else if p.text = "" then .error .notFound
  else if maxPathLen < p.text.utf8ByteSize then .error .nameTooLong
  else .ok ⟨⟨p.startsAtRoot, []⟩, p.steps.reverse, p.endsInSlash⟩

/-- The routes of one or more steps that a list of steps, the last one first, begins with and that
do not end in staying; the longest is first. -/
def stages : List PathStep → List (List PathStep)
  | [] => []
  | .stay :: rest => stages rest
  | step :: rest => (step :: rest) :: stages rest

/-- The steps to the directories above the end of a route, from the deepest on. -/
def above (r : Route) : List (List PathStep) :=
  (stages r.steps).tail

end Route

structure FileSystem where
  places : List (Location × Place)
  contents : List Bytes

namespace FileSystem

def empty : FileSystem := ⟨[], []⟩

/-- The length that directories are said to have. -/
def directoryLen : Nat := 4096

def placeAt (fs : FileSystem) (l : Location) : Option Place :=
  if l.names = [] then some .directory else fs.places.lookup l

def content (fs : FileSystem) (id : Nat) : Bytes :=
  fs.contents.getD id []

/-- What a directory has under a name, if anything. -/
def entry (fs : FileSystem) (directory : Location) (name : String) :
    Except IoFault (Option Place) :=
  if Route.maxNameLen < name.utf8ByteSize then .error .nameTooLong
  else .ok (fs.placeAt (directory.below name))

/-- The directory at the end of the steps, the last one first. -/
def walk (fs : FileSystem) (start : Location) : List PathStep → Except IoFault Location
  | [] => .ok start
  | step :: rest => do
    let directory ← fs.walk start rest
    match step with
    | .stay => return directory
    | .up => return directory.above
    | .into name =>
      match ← fs.entry directory name with
      | some .directory => return directory.below name
      | some (.file _) => throw .notDirectory
      | none => throw .notFound

/-- What is at the end of a route, and where that is. -/
def follow (fs : FileSystem) (r : Route) : Except IoFault (Location × Place) :=
  match r.steps with
  | .into name :: rest => do
    let directory ← fs.walk r.start rest
    match ← fs.entry directory name with
    | none => throw .notFound
    | some place =>
      if r.wantsDirectory ∧ place ≠ .directory then throw .notDirectory
      return (directory.below name, place)
  | steps => do return (← fs.walk r.start steps, .directory)

/-- What is at a path, and where that is. -/
def locate (fs : FileSystem) (p : Path) : Except IoFault (Location × Place) := do
  fs.follow (← Route.ofPath p)

def find (fs : FileSystem) (p : Path) : Except IoFault Place :=
  (fs.locate p).map Prod.snd

def isPresent (fs : FileSystem) (p : Path) : Bool :=
  (fs.find p).isOk

/-- The content of a file. -/
def read (fs : FileSystem) (p : Path) : Except IoFault Bytes := do
  match ← fs.find p with
  | .directory => throw .isDirectory
  | .file id => return fs.content id

/-- The length that is told of what is at a path, 0 if nothing is. -/
def lengthAt (fs : FileSystem) (p : Path) : Nat :=
  match fs.find p with
  | .ok .directory => directoryLen
  | .ok (.file id) => (fs.content id).length
  | .error _ => 0

/-- A new file at a location. -/
def create (fs : FileSystem) (l : Location) (bs : Bytes) : FileSystem where
  places := (l, .file fs.contents.length) :: fs.places
  contents := fs.contents ++ [bs]

def setContent (fs : FileSystem) (id : Nat) (bs : Bytes) : FileSystem :=
  { fs with contents := fs.contents.set id bs }

/-- A file with the content: the one that is there, or a new one. A route that asks for a directory
is refused before its last name is looked up. -/
def write (fs : FileSystem) (p : Path) (bs : Bytes) : Except IoFault FileSystem := do
  let r ← Route.ofPath p
  match r.steps with
  | .into name :: rest =>
    let directory ← fs.walk r.start rest
    if r.wantsDirectory then throw .isDirectory
    match ← fs.entry directory name with
    | none => return fs.create (directory.below name) bs
    | some (.file id) => return fs.setContent id bs
    | some .directory => throw .isDirectory
  | steps =>
    let _ ← fs.walk r.start steps
    throw .isDirectory

/-- A change to the content of a file that is there. -/
def update (fs : FileSystem) (p : Path) (change : Bytes → Bytes) : Except IoFault FileSystem := do
  match ← fs.find p with
  | .directory => throw .isDirectory
  | .file id => return fs.setContent id (change (fs.content id))

/-- Takes a file from its location. -/
def remove (fs : FileSystem) (p : Path) : Except IoFault FileSystem := do
  match ← fs.locate p with
  | (_, .directory) => throw .isDirectory
  | (l, .file _) => return { fs with places := fs.places.filter fun e => e.1 ≠ l }

/-- The names in a directory. -/
def names (fs : FileSystem) (p : Path) : Except IoFault (List String) := do
  match ← fs.locate p with
  | (_, .file _) => throw .notDirectory
  | (l, .directory) =>
    return fs.places.filterMap fun e =>
      e.1.names.getLast?.filter fun name => e.1 = l.below name

/-- One new directory, in a directory that is there. -/
def makeDirectory (fs : FileSystem) (start : Location) :
    List PathStep → Except IoFault FileSystem
  | .into name :: rest => do
    let directory ← fs.walk start rest
    match ← fs.entry directory name with
    | some _ => throw .alreadyExists
    | none => return { fs with places := (directory.below name, .directory) :: fs.places }
  | steps => do
    let _ ← fs.walk start steps
    throw .alreadyExists

/-- Like `makeDirectory`, but it is no failure if the directory is there. -/
def ensureDirectory (fs : FileSystem) (start : Location) (steps : List PathStep) :
    Except IoFault FileSystem :=
  match fs.makeDirectory start steps with
  | .error .alreadyExists =>
    match fs.walk start steps with
    | .ok _ => .ok fs
    | .error _ => .error .alreadyExists
  | result => result

/-- The directory at the first of the steps, and where it needs them those at the further ones. -/
def ensureAll (fs : FileSystem) (start : Location) :
    List (List PathStep) → Except IoFault Unit × FileSystem
  | [] => (.ok (), fs)
  | steps :: above =>
    match fs.ensureDirectory start steps with
    | .ok fs => (.ok (), fs)
    | .error .notFound =>
      match fs.ensureAll start above with
      | (.error cause, fs) => (.error cause, fs)
      | (.ok (), fs) =>
        match fs.ensureDirectory start steps with
        | .ok fs => (.ok (), fs)
        | .error cause => (.error cause, fs)
    | .error cause => (.error cause, fs)

/-- The directory at a path with all directories above it. A path that ends in a dot names a
directory that is there already; of it only those above are made. -/
def makeDirectories (fs : FileSystem) (p : Path) : Except IoFault Unit × FileSystem :=
  if p.text = "" then (.ok (), fs)
  else
    match Route.ofPath p with
    | .error cause => (.error cause, fs)
    | .ok r => fs.ensureAll r.start (r.steps :: r.above)

/-- The directories above a path. -/
def makeAbove (fs : FileSystem) (p : Path) : Except IoFault Unit × FileSystem :=
  match Route.ofPath p with
  | .error cause => (.error cause, fs)
  | .ok r => fs.ensureAll r.start r.above

/-- Like `remove`, but it is no failure if nothing is there. -/
def removeIfPresent (fs : FileSystem) (p : Path) : Except IoFault FileSystem :=
  match fs.remove p with
  | .error .notFound => .ok fs
  | result => result

end FileSystem

end SpatialSegment
