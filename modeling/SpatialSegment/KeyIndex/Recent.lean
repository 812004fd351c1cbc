import SpatialSegment.Error

/-!
# Recently used keys

A cache of the keys of the records used last, up to a capacity. A key that is there is a hit and
becomes the one used last; any other one is loaded. Only a load that gives a key puts it into the
cache, where it takes the room of the key whose use lies longest ago.
-/

namespace SpatialSegment

/-- `recent` lists ordinals and keys, the one used last first. -/
structure RecentKeys where
  capacity : Nat
  recent : List (Nat × String)
  hits : Nat
  misses : Nat
  loads : Nat
  capacity_pos : 0 < capacity

namespace RecentKeys

/-- The greatest capacity there is room for: of the places of a table, whose number is a power of
two, seven in eight are used, and a table of `2 ^ 58` places is the greatest that has addresses. -/
def maxCapacity : Nat := 7 * 0x80000000000000

/-- An empty cache; not defined for capacity 0 and for one there is no room for. -/
def ofCapacity? (capacity : Nat) : Option RecentKeys :=
  if h : 0 < capacity ∧ capacity ≤ maxCapacity then some ⟨capacity, [], 0, 0, 0, h.1⟩ else none

def length (c : RecentKeys) : Nat := c.recent.length

/-- The recency list after a use of an ordinal. -/
def use (ordinal : Nat) (key : String) (recent : List (Nat × String)) : List (Nat × String) :=
  (ordinal, key) :: recent.filter fun e => e.1 ≠ ordinal

/-- The key of an ordinal, from the cache or by the load. -/
def fetch (c : RecentKeys) (ordinal : Nat) (load : Unit → Result (Option String)) :
    Result (Option String) × RecentKeys :=
  match c.recent.lookup ordinal with
  | some key => (.ok (some key), { c with recent := use ordinal key c.recent, hits := c.hits + 1 })
  | none =>
    let c := { c with misses := c.misses + 1, loads := c.loads + 1 }
    match load () with
    | .ok (some key) =>
      (.ok (some key), { c with recent := (use ordinal key c.recent).take c.capacity })
    | result => (result, c)

/-- Forgets the keys; the counters go on. -/
def clear (c : RecentKeys) : RecentKeys :=
  { c with recent := [] }

end RecentKeys

end SpatialSegment
