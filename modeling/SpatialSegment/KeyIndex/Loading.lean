import SpatialSegment.KeyIndex.Recent

/-!
# Loading through the cache

How a cache comes to the key of an ordinal when loads may meet. The keys are in a table. A call that
does not find its key there joins the load that is under way for the ordinal, or begins one, and
ends it when the key has been put into the table. A load has a cell for what it gives; a load that
fails gives nothing, and whoever has joined it loads again.

`RecentKeys` is what is left of this where no two calls meet.
-/

namespace SpatialSegment

/-- A table of ordinals and keys. Looking a key up may change the table. -/
structure KeyTable where
  State : Type
  get : (ordinal : Nat) → State → Option String × State
  put : (ordinal : Nat) → (key : String) → State → State
  clear : State → State
  length : State → Nat

/-- Cells are numbered in the order in which the loads began. A cell holds what its load has given,
which is no key if there was none to load. -/
structure LoadingKeys (table : KeyTable) where
  keys : table.State
  cells : List (Option (Option String))
  underWay : List (Nat × Nat)
  hits : Nat
  misses : Nat
  loads : Nat

namespace LoadingKeys

variable {table : KeyTable}

/-- A cache whose table is in the given state. -/
def new (keys : table.State) : LoadingKeys table := ⟨keys, [], [], 0, 0, 0⟩

def length (c : LoadingKeys table) : Nat := table.length c.keys

/-- Forgets the keys; the counters and the loads that are under way go on. -/
def clear (c : LoadingKeys table) : LoadingKeys table :=
  { c with keys := table.clear c.keys }

/-- A key that is in the table is a hit. -/
def find (c : LoadingKeys table) (ordinal : Nat) : Option String × LoadingKeys table :=
  match table.get ordinal c.keys with
  | (some key, keys) => (some key, { c with keys, hits := c.hits + 1 })
  | (none, keys) => (none, { c with keys })

/-- The cell of the load that is under way for the ordinal, or of one that begins. -/
def join (c : LoadingKeys table) (ordinal : Nat) : Nat × LoadingKeys table :=
  match c.underWay.lookup ordinal with
  | some cell => (cell, c)
  | none =>
    let cell := c.cells.length
    (cell, { c with cells := c.cells ++ [none], underWay := (ordinal, cell) :: c.underWay })

/-- What the cell holds. If it holds nothing the load is run, and the cell takes what it gives. -/
def fill {m : Type → Type} [Monad m] (c : LoadingKeys table) (cell : Nat)
    (load : m (Result (Option String))) : m (Result (Option String) × LoadingKeys table) :=
  match c.cells[cell]?.join with
  | some given => pure (.ok given, c)
  | none => do
    let c := { c with loads := c.loads + 1 }
    match ← load with
    | .ok given => pure (.ok given, { c with cells := c.cells.set cell (some given) })
    | .error cause => pure (.error cause, c)

/-- Puts a key that has been loaded into the table. -/
def keep (c : LoadingKeys table) (ordinal : Nat) : Result (Option String) → LoadingKeys table
  | .ok (some key) => { c with keys := table.put ordinal key c.keys }
  | _ => c

/-- The load is under way no longer, unless the one under way for the ordinal is another. -/
def leave (c : LoadingKeys table) (ordinal cell : Nat) : LoadingKeys table :=
  if c.underWay.lookup ordinal = some cell then
    { c with underWay := c.underWay.filter fun e => e.1 ≠ ordinal }
  else c

/-- The key of an ordinal, from the table or by the load. -/
def getOrLoad {m : Type → Type} [Monad m] (c : LoadingKeys table) (ordinal : Nat)
    (load : m (Result (Option String))) : m (Result (Option String) × LoadingKeys table) :=
  match c.find ordinal with
  | (some key, c) => pure (.ok (some key), c)
  | (none, c) =>
    -- A load may have ended since, so the table is asked again.
    match c.find ordinal with
    | (some key, c) => pure (.ok (some key), c)
    | (none, c) => do
      let (cell, c) := c.join ordinal
      let (result, c) ← { c with misses := c.misses + 1 }.fill cell load
      pure (result, (c.keep ordinal result).leave ordinal cell)

end LoadingKeys

end SpatialSegment
