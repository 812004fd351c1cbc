import SpatialSegment.Box

/-!
# Tuples

What a segment stores: a value under a key, with the box it occupies and two times. Versions order
the writes of a key; the time of receipt is when the store took the tuple in. Several tuples of one
segment may have one key.
-/

namespace SpatialSegment

structure Tuple where
  key : String
  box : Box
  payload : Bytes
  version : Int64
  received : Int64
deriving DecidableEq

end SpatialSegment
