import SpatialSegment.RTree.Table
import SpatialSegment.File.System

/-!
# The spatial index in a file

Saving makes the file first; when the index does not fit the format, what was written by then stays
in it. Loading takes every fault of the content for a fault of the file.
-/

namespace SpatialSegment

namespace RTree

def save (fs : FileSystem) (t : RTree) (path : Path) : Result Unit × FileSystem :=
  let (bytes, result) := t.image
  match fs.write path bytes with
  | .error cause => (.error (.fileIo path 0 cause), fs)
  | .ok fs => (result, fs)

def load (fs : FileSystem) (path : Path) : Result RTree :=
  match fs.read path with
  | .error cause => .error (.fileIo path 0 cause)
  | .ok bs => (ofBytes bs).mapError (.formatIn path)

end RTree

end SpatialSegment
