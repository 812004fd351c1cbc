import SpatialSegment.File.View
import SpatialSegment.RTree

/-!
# Settings for one segment

How a segment is written and read: the capacity of the key cache, where 0 means none, the way files
are read, whether there is a membership filter and what share of wrong answers it may give, and how
much a node of the spatial index may list.
-/

namespace SpatialSegment

structure Config where
  cacheCapacity : Nat
  mode : ReadMode
  useFilter : Bool
  filterRate : Float
  maxNodeSize : Nat

namespace Config

def default : Config where
  cacheCapacity := 1000
  mode := .mapped
  useFilter := true
  filterRate := 0.01
  maxNodeSize := RTree.defaultNodeSize

instance : Inhabited Config := ⟨default⟩

/-- Equality of settings; rates are compared as numbers. -/
def sameAs (a b : Config) : Bool :=
  a.cacheCapacity == b.cacheCapacity && a.mode == b.mode && a.useFilter == b.useFilter &&
    a.filterRate == b.filterRate && a.maxNodeSize == b.maxNodeSize

end Config

end SpatialSegment
