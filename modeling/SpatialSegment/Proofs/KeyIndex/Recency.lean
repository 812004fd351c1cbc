import SpatialSegment.Calls
import SpatialSegment.KeyIndex.Loading
import SpatialSegment.Proofs.KeyIndex.Cached

/-!
# The keys used last are in the cache

Fetches and clears are made one after another. Then no load is under way when a call comes, and the
table with its cells behaves as the plain list of recent keys. The list holds the ordinals used last
since the last clear, as many as there is room for, each with the key that its latest load has
given. A fetch of one of them is a hit and loads nothing; any other fetch loads once.
-/

namespace SpatialSegment

/-! ## Lists without repetitions -/

section

variable {α : Type} [BEq α] [LawfulBEq α]

theorem eraseDups_filter (p : α → Bool) (xs : List α) :
    (xs.filter p).eraseDups = xs.eraseDups.filter p := by
  match xs with
  | [] => rfl
  | x :: xs =>
    have hrest := eraseDups_filter p (xs.filter fun y => !y == x)
    by_cases hx : p x = true
    · rw [List.filter_cons_of_pos hx, List.eraseDups_cons, List.eraseDups_cons,
        List.filter_cons_of_pos hx, ← hrest, List.filter_filter, List.filter_filter]
      simp only [Bool.and_comm]
    · -- A member that is not let through has no equals that are.
      have hsame : xs.filter p = (xs.filter fun y => !y == x).filter p := by
        rw [List.filter_filter]
        refine List.filter_congr fun y _ => ?_
        by_cases hy : y = x
        · subst hy
          simp [hx]
        · simp [hy]
      rw [List.filter_cons_of_neg hx, List.eraseDups_cons, List.filter_cons_of_neg hx, ← hrest,
        hsame]
termination_by xs.length
decreasing_by exact Nat.lt_succ_of_le (List.length_filter_le _ _)

theorem nodup_eraseDups (xs : List α) : xs.eraseDups.Nodup := by
  match xs with
  | [] => exact List.nodup_nil
  | x :: xs =>
    rw [List.eraseDups_cons, List.nodup_cons]
    constructor
    · simp
    · exact nodup_eraseDups _
termination_by xs.length
decreasing_by exact Nat.lt_succ_of_le (List.length_filter_le _ _)

/-- Without one member, the first `n` are among the first `n + 1`. -/
theorem take_filter_of_nodup {xs : List α} (nodup : xs.Nodup) (n : Nat) (x : α) :
    ((xs.take (n + 1)).filter fun y => !y == x).take n = (xs.filter fun y => !y == x).take n := by
  induction xs generalizing n with
  | nil => rfl
  | cons y ys ih =>
    obtain ⟨hnotMem, hnodup⟩ := List.nodup_cons.mp nodup
    rw [List.take_succ_cons]
    by_cases hy : y = x
    · subst hy
      have hall : ∀ z ∈ ys, (!z == y) = true := by
        intro z hz
        have hne : z ≠ y := fun heq => hnotMem (heq ▸ hz)
        simpa using hne
      have hfirst : (ys.take n).filter (fun z => !z == y) = ys.take n :=
        List.filter_eq_self.mpr fun z hz => hall z (List.mem_of_mem_take hz)
      rw [List.filter_cons_of_neg (by simp), List.filter_cons_of_neg (by simp), hfirst,
        List.filter_eq_self.mpr hall, List.take_take, Nat.min_self]
    · rw [List.filter_cons_of_pos (by simpa using hy), List.filter_cons_of_pos (by simpa using hy)]
      cases n with
      | zero => rfl
      | succ n => rw [List.take_succ_cons, List.take_succ_cons, ih hnodup]

end

namespace RecentKeys

/-! ## Calls and what they were answered -/

/-- A fetch comes with what its load answers if it is run. -/
inductive Call where
  | fetch (ordinal : Nat) (answer : Result (Option String))
  | clear

/-- What a call came to. -/
inductive Event where
  | fetched (ordinal : Nat) (result : Result (Option String))
  | cleared

def call (k : RecentKeys) : Call → Event × RecentKeys
  | .fetch ordinal answer =>
    let (result, k) := k.fetch ordinal fun _ => answer
    (.fetched ordinal result, k)
  | .clear => (.cleared, k.clear)

/-- The ordinals whose fetches have given a key since the last clear, the latest one first. -/
def uses : List Event → List Nat
  | [] => []
  | .cleared :: _ => []
  | .fetched ordinal (.ok (some _)) :: earlier => ordinal :: uses earlier
  | .fetched _ _ :: earlier => uses earlier

/-- How many of the calls were fetches. -/
def fetches : List Event → Nat
  | [] => 0
  | .cleared :: earlier => fetches earlier
  | .fetched _ _ :: earlier => fetches earlier + 1

/-- The `capacity` ordinals used last, the latest one first. -/
def usedLast (capacity : Nat) (past : List Event) : List Nat :=
  (uses past).eraseDups.take capacity

/-! ## The list of recent keys -/

section

variable {k : RecentKeys} {ordinal : Nat} {key : String} {answer : Result (Option String)}
  {recent : List (Nat × String)} {loaded : List (Nat × Result (Option String))} {past : List Event}

theorem fetch_of_lookup (h : k.recent.lookup ordinal = some key)
    (load : Unit → Result (Option String)) :
    k.fetch ordinal load =
      (.ok (some key), { k with recent := use ordinal key k.recent, hits := k.hits + 1 }) := by
  rw [fetch, h]

/-- The list after a load. -/
def keep (k : RecentKeys) (ordinal : Nat) : Result (Option String) → List (Nat × String)
  | .ok (some key) => (use ordinal key k.recent).take k.capacity
  | _ => k.recent

theorem fetch_of_missing (h : k.recent.lookup ordinal = none)
    (load : Unit → Result (Option String)) :
    k.fetch ordinal load =
      (load (), { k with recent := k.keep ordinal (load ()),
                         misses := k.misses + 1, loads := k.loads + 1 }) := by
  rw [fetch, h]
  dsimp only
  rcases load () with cause | _ | key <;> rfl

theorem lookup_isSome_iff : (∃ key, recent.lookup ordinal = some key) ↔
    ordinal ∈ recent.map Prod.fst := by
  constructor
  · rintro ⟨key, h⟩
    exact List.mem_map.mpr ⟨_, mem_of_lookup h, rfl⟩
  · intro h
    cases hlookup : recent.lookup ordinal with
    | some key => exact ⟨key, rfl⟩
    | none =>
      obtain ⟨e, he, rfl⟩ := List.mem_map.mp h
      exact absurd (List.lookup_eq_none_iff.mp hlookup e he) (by simp)

theorem map_use (ordinal : Nat) (key : String) (recent : List (Nat × String)) :
    (use ordinal key recent).map Prod.fst =
      ordinal :: (recent.map Prod.fst).filter fun o => !o == ordinal := by
  rw [use, List.map_cons, List.filter_map]
  congr 2
  refine List.filter_congr fun e _ => ?_
  simp only [ne_eq, decide_not, Function.comp_apply, beq_eq_decide]

/-- A use of an ordinal that is in the list makes it no longer. -/
theorem length_use_le (h : recent.lookup ordinal = some key) :
    (use ordinal key recent).length ≤ recent.length := by
  have hmem := mem_of_lookup h
  have hlt : (recent.filter fun e => e.1 ≠ ordinal).length < recent.length :=
    List.length_filter_lt_length_iff_exists.mpr ⟨_, hmem, by simp⟩
  rw [use, List.length_cons]
  omega

/-- After a use, the first ordinals are those used last. -/
theorem map_take_use {capacity : Nat} (h : recent.map Prod.fst = usedLast capacity past)
    (ordinal : Nat) (key : String) :
    ((use ordinal key recent).take capacity).map Prod.fst =
      usedLast capacity (.fetched ordinal (.ok (some key)) :: past) := by
  rw [List.map_take, map_use, h, usedLast, usedLast, uses, List.eraseDups_cons, eraseDups_filter]
  cases capacity with
  | zero => rfl
  | succ n =>
    rw [List.take_succ_cons, List.take_succ_cons, take_filter_of_nodup (nodup_eraseDups _)]

/-- What the cache holds and has counted, after the loads that have been run, the latest one first,
and the calls that have been made. -/
structure Exact (k : RecentKeys) (loaded : List (Nat × Result (Option String)))
    (past : List Event) : Prop where
  recent : k.recent.map Prod.fst = usedLast k.capacity past
  latest : ∀ e ∈ k.recent, loaded.lookup e.1 = some (.ok (some e.2))
  fetches : k.hits + k.misses = fetches past
  loads : k.loads = k.misses

theorem Exact.length_le (holds : Exact k loaded past) : k.recent.length ≤ k.capacity := by
  rw [← List.length_map Prod.fst, holds.recent, usedLast]
  exact List.length_take_le _ _

theorem Exact.mem_usedLast_iff (holds : Exact k loaded past) :
    ordinal ∈ usedLast k.capacity past ↔ ∃ key, k.recent.lookup ordinal = some key := by
  rw [← holds.recent, lookup_isSome_iff]

/-- A hit is a use of the ordinal. -/
theorem Exact.hit (holds : Exact k loaded past) (h : k.recent.lookup ordinal = some key) :
    Exact { k with recent := use ordinal key k.recent, hits := k.hits + 1 } loaded
      (.fetched ordinal (.ok (some key)) :: past) := by
  have hlength := Nat.le_trans (length_use_le h) holds.length_le
  have hmap := map_take_use holds.recent ordinal key
  rw [List.take_of_length_le hlength] at hmap
  refine ⟨hmap, ?_, ?_, holds.loads⟩
  · intro e he
    rcases List.mem_cons.mp he with rfl | he
    · exact holds.latest _ (mem_of_lookup h)
    · exact holds.latest e (List.mem_filter.mp he).1
  · have := holds.fetches
    simp only [RecentKeys.fetches]
    omega

/-- The ordinal of a load was not in the list. -/
theorem Exact.latest_of_load (holds : Exact k loaded past) (h : k.recent.lookup ordinal = none)
    (answer : Result (Option String)) :
    ∀ e ∈ k.keep ordinal answer,
      ((ordinal, answer) :: loaded).lookup e.1 = some (.ok (some e.2)) := by
  have hold : ∀ e ∈ k.recent,
      ((ordinal, answer) :: loaded).lookup e.1 = some (.ok (some e.2)) := by
    intro e he
    have hne : ordinal ≠ e.1 := bne_iff_ne.mp (List.lookup_eq_none_iff.mp h e he)
    rw [List.lookup_cons, beq_false_of_ne (Ne.symm hne)]
    exact holds.latest e he
  rcases answer with cause | _ | key
  · exact hold
  · exact hold
  · intro e he
    rcases List.mem_cons.mp (List.mem_of_mem_take he) with rfl | he
    · exact List.lookup_cons_self
    · exact hold e (List.mem_filter.mp he).1

/-- A miss is a use of the ordinal if its load gives a key. -/
theorem Exact.miss (holds : Exact k loaded past) (h : k.recent.lookup ordinal = none)
    (answer : Result (Option String)) :
    Exact { k with recent := k.keep ordinal answer, misses := k.misses + 1, loads := k.loads + 1 }
      ((ordinal, answer) :: loaded) (.fetched ordinal answer :: past) := by
  refine ⟨?_, holds.latest_of_load h answer, ?_, ?_⟩
  · rcases answer with cause | _ | key
    · exact holds.recent
    · exact holds.recent
    · exact map_take_use holds.recent ordinal key
  · have := holds.fetches
    simp only [RecentKeys.fetches]
    omega
  · exact congrArg (· + 1) holds.loads

theorem Exact.clear (holds : Exact k loaded past) : Exact k.clear loaded (.cleared :: past) := by
  constructor
  · exact List.take_nil.symm
  · intro e he
    cases he
  · exact holds.fetches
  · exact holds.loads

end

end RecentKeys

/-! ## The table with its cells -/

/-- The table keeps the entries used last, as many as there is room for; `recent` lists the entries
of a state, the one used last first. -/
structure KeyTable.KeepsRecent (table : KeyTable) (capacity : Nat)
    (recent : table.State → List (Nat × String)) : Prop where
  get : ∀ ordinal s, (table.get ordinal s).1 = (recent s).lookup ordinal
  get_found : ∀ ordinal s key, (recent s).lookup ordinal = some key →
    recent (table.get ordinal s).2 = RecentKeys.use ordinal key (recent s)
  get_missing : ∀ ordinal s, (recent s).lookup ordinal = none →
    recent (table.get ordinal s).2 = recent s
  put : ∀ ordinal key s,
    recent (table.put ordinal key s) = (RecentKeys.use ordinal key (recent s)).take capacity
  clear : ∀ s, recent (table.clear s) = []
  length : ∀ s, table.length s = (recent s).length

namespace LoadingKeys

open RecentKeys (Call Event Exact usedLast fetches)

/-- The cache, the loads that have been run and the calls that have been made, each the latest one
first. -/
structure History (table : KeyTable) where
  cache : LoadingKeys table
  loaded : List (Nat × Result (Option String))
  past : List Event

namespace History

variable {table : KeyTable}

def new (keys : table.State) : History table := ⟨LoadingKeys.new keys, [], []⟩

/-- A load that is noted when it is run. -/
def noted (ordinal : Nat) (answer : Result (Option String)) :
    StateM (List (Nat × Result (Option String))) (Result (Option String)) := do
  modify ((ordinal, answer) :: ·)
  return answer

def call (h : History table) : Call → Event × History table
  | .fetch ordinal answer =>
    let ((result, cache), loaded) :=
      (h.cache.getOrLoad ordinal (noted ordinal answer)).run h.loaded
    (.fetched ordinal result, ⟨cache, loaded, .fetched ordinal result :: h.past⟩)
  | .clear => (.cleared, { h with cache := h.cache.clear, past := .cleared :: h.past })

end History

section

variable {table : KeyTable} {capacity : Nat} {recent : table.State → List (Nat × String)}
  {c : LoadingKeys table} {k : RecentKeys} {ordinal : Nat} {key : String}

/-- Between calls no load is under way, and the cache shows what the plain list of keys does. -/
structure Mirrors (recent : table.State → List (Nat × String)) (c : LoadingKeys table)
    (k : RecentKeys) : Prop where
  keys : recent c.keys = k.recent
  hits : c.hits = k.hits
  misses : c.misses = k.misses
  loads : c.loads = k.loads
  idle : c.underWay = []

theorem find_of_found (keeps : table.KeepsRecent capacity recent)
    (h : (recent c.keys).lookup ordinal = some key) :
    ∃ keys, recent keys = RecentKeys.use ordinal key (recent c.keys) ∧
      c.find ordinal = (some key, { c with keys, hits := c.hits + 1 }) := by
  have hget := (keeps.get ordinal c.keys).trans h
  have hkeys := keeps.get_found ordinal c.keys key h
  rw [find]
  cases hfound : table.get ordinal c.keys with
  | mk found keys =>
    rw [hfound] at hget hkeys
    cases hget
    exact ⟨keys, hkeys, rfl⟩

theorem find_of_missing (keeps : table.KeepsRecent capacity recent)
    (h : (recent c.keys).lookup ordinal = none) :
    ∃ keys, recent keys = recent c.keys ∧ c.find ordinal = (none, { c with keys }) := by
  have hget := (keeps.get ordinal c.keys).trans h
  have hkeys := keeps.get_missing ordinal c.keys h
  rw [find]
  cases hfound : table.get ordinal c.keys with
  | mk found keys =>
    rw [hfound] at hget hkeys
    cases hget
    exact ⟨keys, hkeys, rfl⟩

variable {m : Type → Type} [Monad m]

/-- A hit runs no load. -/
theorem getOrLoad_of_found (keeps : table.KeepsRecent capacity recent)
    (mirrors : Mirrors recent c k) (h : k.recent.lookup ordinal = some key)
    (load : m (Result (Option String))) :
    ∃ c', c.getOrLoad ordinal load = pure (.ok (some key), c') ∧
      Mirrors recent c'
        { k with recent := RecentKeys.use ordinal key k.recent, hits := k.hits + 1 } := by
  obtain ⟨keys, hkeys, hfind⟩ := find_of_found keeps (mirrors.keys ▸ h)
  refine ⟨{ c with keys, hits := c.hits + 1 }, ?_, ?_⟩
  · rw [getOrLoad, hfind]
  · exact ⟨mirrors.keys ▸ hkeys, congrArg (· + 1) mirrors.hits, mirrors.misses, mirrors.loads,
      mirrors.idle⟩

/-- The cache after a load that has been run in an empty cell. -/
def filled (c : LoadingKeys table) (cell : Nat) : Result (Option String) → LoadingKeys table
  | .ok given => { c with loads := c.loads + 1, cells := c.cells.set cell (some given) }
  | .error _ => { c with loads := c.loads + 1 }

theorem fill_of_empty {cell : Nat} (h : c.cells[cell]? = some none)
    (load : m (Result (Option String))) :
    c.fill cell load = load >>= fun result => pure (result, c.filled cell result) := by
  rw [fill, h]
  refine congrArg (load >>= ·) (funext fun result => ?_)
  cases result <;> rfl

/-- The cache when a load has begun in a new cell. -/
def begun (c : LoadingKeys table) (ordinal : Nat) : LoadingKeys table :=
  { c with cells := c.cells ++ [none], underWay := [(ordinal, c.cells.length)],
           misses := c.misses + 1 }

/-- Where no load is under way, what a load gives is kept and its cell is left, also when it
fails. -/
theorem mirrors_leave (keeps : table.KeepsRecent k.capacity recent) (mirrors : Mirrors recent c k)
    (ordinal : Nat) (result : Result (Option String)) :
    Mirrors recent
      ((((c.begun ordinal).filled c.cells.length result).keep ordinal result).leave ordinal
        c.cells.length)
      { k with recent := k.keep ordinal result, misses := k.misses + 1, loads := k.loads + 1 } := by
  have hleave (c' : LoadingKeys table) (h : c'.underWay = [(ordinal, c.cells.length)]) :
      c'.leave ordinal c.cells.length = { c' with underWay := [] } := by
    have hown : c'.underWay.lookup ordinal = some c.cells.length := by
      rw [h]
      exact List.lookup_cons_self
    rw [leave, if_pos hown, h, List.filter_cons_of_neg (by simp), List.filter_nil]
  have hmisses := congrArg (· + 1) mirrors.misses
  have hloads := congrArg (· + 1) mirrors.loads
  rcases result with cause | _ | key
  · rw [hleave _ rfl]
    exact ⟨mirrors.keys, mirrors.hits, hmisses, hloads, rfl⟩
  · rw [hleave _ rfl]
    exact ⟨mirrors.keys, mirrors.hits, hmisses, hloads, rfl⟩
  · rw [hleave _ rfl]
    have hkeys := keeps.put ordinal key c.keys
    rw [mirrors.keys] at hkeys
    exact ⟨hkeys, mirrors.hits, hmisses, hloads, rfl⟩

/-- A miss runs the load once and answers what it does. -/
theorem getOrLoad_of_missing [LawfulMonad m] (keeps : table.KeepsRecent k.capacity recent)
    (mirrors : Mirrors recent c k) (h : k.recent.lookup ordinal = none)
    (load : m (Result (Option String))) :
    ∃ after : Result (Option String) → LoadingKeys table,
      c.getOrLoad ordinal load = (fun result => (result, after result)) <$> load ∧
      ∀ result, Mirrors recent (after result)
        { k with
          recent := k.keep ordinal result
          misses := k.misses + 1
          loads := k.loads + 1 } := by
  -- The table is looked at twice and is the same to every later look.
  have hmissing := mirrors.keys ▸ h
  obtain ⟨keys, hkeys, hfind⟩ := find_of_missing keeps hmissing
  obtain ⟨keys', hkeys', hfind'⟩ :=
    find_of_missing (c := { c with keys }) keeps (hkeys.symm ▸ hmissing)
  have mirrors' : Mirrors recent { c with keys := keys' } k :=
    ⟨hkeys'.trans (hkeys.trans mirrors.keys), mirrors.hits, mirrors.misses, mirrors.loads,
      mirrors.idle⟩
  have hjoin : LoadingKeys.join { c with keys := keys' } ordinal =
      (c.cells.length, { c with keys := keys', cells := c.cells ++ [none],
                                underWay := [(ordinal, c.cells.length)] }) := by
    simp only [join, mirrors.idle]
    rfl
  have hempty : (begun { c with keys := keys' } ordinal).cells[c.cells.length]? = some none :=
    List.getElem?_concat_length
  refine ⟨_, ?_, mirrors_leave keeps mirrors' ordinal⟩
  rw [getOrLoad, hfind]
  dsimp only
  rw [hfind']
  dsimp only
  rw [hjoin]
  change (begun { c with keys := keys' } ordinal).fill c.cells.length load >>= _ = _
  rw [fill_of_empty hempty, bind_assoc, map_eq_pure_bind]
  simp only [pure_bind]

end

/-! ## Calls one after another -/

section

variable {table : KeyTable} {capacity : Nat} {recent : table.State → List (Nat × String)}
  {h : History table} {k : RecentKeys}

/-- The cache shows what the plain list of keys does, and that is exact. -/
structure Tracks (capacity : Nat) (recent : table.State → List (Nat × String)) (h : History table)
    (k : RecentKeys) : Prop where
  capacity : k.capacity = capacity
  mirrors : Mirrors recent h.cache k
  holds : Exact k h.loaded h.past

/-- A fetch of an ordinal that is in the list. -/
theorem call_of_found (keeps : table.KeepsRecent capacity recent)
    (tracks : Tracks capacity recent h k) {ordinal : Nat} {key : String}
    (hkey : k.recent.lookup ordinal = some key) (answer : Result (Option String)) :
    ∃ cache, h.call (.fetch ordinal answer) = (.fetched ordinal (.ok (some key)),
        ⟨cache, h.loaded, .fetched ordinal (.ok (some key)) :: h.past⟩) ∧
      Mirrors recent cache
        { k with recent := RecentKeys.use ordinal key k.recent, hits := k.hits + 1 } := by
  obtain ⟨cache, hcache, mirrors⟩ :=
    getOrLoad_of_found keeps tracks.mirrors hkey (History.noted ordinal answer)
  refine ⟨cache, ?_, mirrors⟩
  rw [History.call, hcache]
  rfl

/-- A fetch of another ordinal. -/
theorem call_of_missing (keeps : table.KeepsRecent capacity recent)
    (tracks : Tracks capacity recent h k) {ordinal : Nat}
    (hmissing : k.recent.lookup ordinal = none) (answer : Result (Option String)) :
    ∃ cache, h.call (.fetch ordinal answer) = (.fetched ordinal answer,
        ⟨cache, (ordinal, answer) :: h.loaded, .fetched ordinal answer :: h.past⟩) ∧
      Mirrors recent cache { k with recent := k.keep ordinal answer, misses := k.misses + 1,
                                    loads := k.loads + 1 } := by
  obtain ⟨after, hafter, mirrors⟩ := getOrLoad_of_missing (tracks.capacity ▸ keeps) tracks.mirrors
    hmissing (History.noted ordinal answer)
  refine ⟨after answer, ?_, mirrors answer⟩
  rw [History.call, hafter]
  rfl

/-- A call is answered as the plain list of keys answers it, and the cache goes on showing that
list. -/
theorem alike_call (keeps : table.KeepsRecent capacity recent) :
    Calls.Alike (Tracks capacity recent) History.call RecentKeys.call := by
  intro h k call tracks
  cases call with
  | clear =>
    refine ⟨rfl, tracks.capacity, ⟨keeps.clear _, ?_, ?_, ?_, ?_⟩, tracks.holds.clear⟩
    · exact tracks.mirrors.hits
    · exact tracks.mirrors.misses
    · exact tracks.mirrors.loads
    · exact tracks.mirrors.idle
  | fetch ordinal answer =>
    rw [RecentKeys.call]
    cases hlookup : k.recent.lookup ordinal with
    | some key =>
      obtain ⟨cache, hcall, mirrors⟩ := call_of_found keeps tracks hlookup answer
      rw [hcall, RecentKeys.fetch_of_lookup hlookup]
      exact ⟨rfl, tracks.capacity, mirrors, tracks.holds.hit hlookup⟩
    | none =>
      obtain ⟨cache, hcall, mirrors⟩ := call_of_missing keeps tracks hlookup answer
      rw [hcall, RecentKeys.fetch_of_missing hlookup]
      exact ⟨rfl, tracks.capacity, mirrors, tracks.holds.miss hlookup answer⟩

theorem tracks_new {keys : table.State} (empty : recent keys = []) (capacity_pos : 0 < capacity) :
    Tracks capacity recent (History.new keys) ⟨capacity, [], 0, 0, 0, capacity_pos⟩ := by
  refine ⟨rfl, ⟨empty, rfl, rfl, rfl, rfl⟩, ⟨List.take_nil.symm, ?_, rfl, rfl⟩⟩
  intro e he
  cases he

/-- A fetch of an ordinal that is among those used last. -/
theorem Tracks.fetch_used (tracks : Tracks capacity recent h k)
    (keeps : table.KeepsRecent capacity recent) {ordinal : Nat}
    (used : ordinal ∈ usedLast capacity h.past) (answer : Result (Option String)) :
    let fetched := h.call (.fetch ordinal answer)
    ∃ key, h.loaded.lookup ordinal = some (.ok (some key)) ∧
      fetched.1 = .fetched ordinal (.ok (some key)) ∧ fetched.2.loaded = h.loaded ∧
      fetched.2.cache.hits = h.cache.hits + 1 ∧ fetched.2.cache.misses = h.cache.misses := by
  obtain ⟨key, hkey⟩ := tracks.holds.mem_usedLast_iff.mp (tracks.capacity.symm ▸ used)
  obtain ⟨cache, hcall, mirrors⟩ := call_of_found keeps tracks hkey answer
  refine ⟨key, tracks.holds.latest _ (RecentKeys.mem_of_lookup hkey), ?_⟩
  simp only [hcall, mirrors.hits, mirrors.misses, tracks.mirrors.hits, tracks.mirrors.misses]
  exact ⟨trivial, trivial, trivial, trivial⟩

/-- A fetch of another ordinal. -/
theorem Tracks.fetch_unused (tracks : Tracks capacity recent h k)
    (keeps : table.KeepsRecent capacity recent) {ordinal : Nat}
    (unused : ordinal ∉ usedLast capacity h.past) (answer : Result (Option String)) :
    let fetched := h.call (.fetch ordinal answer)
    fetched.1 = .fetched ordinal answer ∧ fetched.2.loaded = (ordinal, answer) :: h.loaded ∧
      fetched.2.cache.hits = h.cache.hits ∧ fetched.2.cache.misses = h.cache.misses + 1 := by
  have hmissing : k.recent.lookup ordinal = none := by
    refine Option.eq_none_iff_forall_ne_some.mpr fun key hkey => unused ?_
    exact tracks.capacity ▸ tracks.holds.mem_usedLast_iff.mpr ⟨key, hkey⟩
  obtain ⟨cache, hcall, mirrors⟩ := call_of_missing keeps tracks hmissing answer
  simp only [hcall, mirrors.hits, mirrors.misses, tracks.mirrors.hits, tracks.mirrors.misses]
  exact ⟨trivial, trivial, trivial, trivial⟩

end

/-- After any calls to an empty cache, a fetch is a hit exactly for the ordinals used last: the
answer is the key that the latest load of the ordinal has given, and no load is run. Any other fetch
is a miss, runs its load once and answers what it does. There are never more keys than there is room
for, every fetch has been counted as a hit or a miss, and every miss as a load. The plain list of
keys answers all calls alike, and has the same keys and counts. -/
theorem hit_iff_used_last {table : KeyTable} {capacity : Nat}
    {recent : table.State → List (Nat × String)} (keeps : table.KeepsRecent capacity recent)
    (capacity_pos : 0 < capacity) (keys : table.State) (empty : recent keys = [])
    (calls : List Call) (ordinal : Nat) (answer : Result (Option String)) :
    let h := Calls.stateAfter History.call (History.new keys) calls
    let fetched := h.call (.fetch ordinal answer)
    let plain : RecentKeys := ⟨capacity, [], 0, 0, 0, capacity_pos⟩
    let k := Calls.stateAfter RecentKeys.call plain calls
    (ordinal ∈ usedLast capacity h.past →
      ∃ key, h.loaded.lookup ordinal = some (.ok (some key)) ∧
        fetched.1 = .fetched ordinal (.ok (some key)) ∧ fetched.2.loaded = h.loaded ∧
        fetched.2.cache.hits = h.cache.hits + 1 ∧ fetched.2.cache.misses = h.cache.misses) ∧
    (ordinal ∉ usedLast capacity h.past →
      fetched.1 = .fetched ordinal answer ∧ fetched.2.loaded = (ordinal, answer) :: h.loaded ∧
        fetched.2.cache.hits = h.cache.hits ∧ fetched.2.cache.misses = h.cache.misses + 1) ∧
    h.cache.length ≤ capacity ∧ h.cache.hits + h.cache.misses = fetches h.past ∧
    h.cache.loads = h.cache.misses ∧
    Calls.answers History.call (History.new keys) calls =
      Calls.answers RecentKeys.call plain calls ∧
    recent h.cache.keys = k.recent ∧ h.cache.hits = k.hits ∧ h.cache.misses = k.misses ∧
    h.cache.loads = k.loads := by
  intro h fetched plain k
  have begins : Tracks capacity recent (History.new keys) plain := tracks_new empty capacity_pos
  have tracks : Tracks capacity recent h k := (alike_call keeps).stateAfter begins calls
  have mirrors := tracks.mirrors
  refine ⟨fun used => tracks.fetch_used keeps used answer,
    fun unused => tracks.fetch_unused keeps unused answer, ?_, ?_, ?_, ?_, ?_⟩
  · rw [length, keeps.length, mirrors.keys, ← tracks.capacity]
    exact tracks.holds.length_le
  · rw [mirrors.hits, mirrors.misses]
    exact tracks.holds.fetches
  · rw [mirrors.loads, mirrors.misses]
    exact tracks.holds.loads
  · exact (alike_call keeps).answers_eq begins calls
  · exact ⟨mirrors.keys, mirrors.hits, mirrors.misses, mirrors.loads⟩

/-- A table that is the list of its entries, the one used last first. -/
def listTable (capacity : Nat) : KeyTable where
  State := List (Nat × String)
  get ordinal s :=
    match s.lookup ordinal with
    | some key => (some key, RecentKeys.use ordinal key s)
    | none => (none, s)
  put ordinal key s := (RecentKeys.use ordinal key s).take capacity
  clear _ := []
  length := List.length

theorem keepsRecent_listTable (capacity : Nat) :
    (listTable capacity).KeepsRecent capacity id := by
  constructor
  · intro ordinal s
    change (match s.lookup ordinal with
      | some key => (some key, RecentKeys.use ordinal key s)
      | none => (none, s)).1 = s.lookup ordinal
    cases s.lookup ordinal <;> rfl
  · intro ordinal s key h
    have hlookup : s.lookup ordinal = some key := h
    simp only [listTable, hlookup]
    rfl
  · intro ordinal s h
    have hlookup : s.lookup ordinal = none := h
    simp only [listTable, hlookup]
  · intro ordinal key s
    rfl
  · intro s
    rfl
  · intro s
    rfl

/-- There is room for two keys. The hit on the first ordinal keeps it when the third one is loaded,
for which three loads were needed; then the second ordinal has to be loaded again. -/
theorem hit_iff_used_last_evicted :
    let failed : SegmentError := .formatIn ⟨"x.sst"⟩ (.range 27 10 36)
    let calls : List Call := [.fetch 9 (.ok (some "z")), .clear, .fetch 1 (.ok (some "a")),
      .fetch 2 (.ok (some "b")), .fetch 1 (.ok none), .fetch 3 (.error failed),
      .fetch 3 (.ok none), .fetch 3 (.ok (some "c"))]
    let h := Calls.stateAfter History.call (History.new (show (listTable 2).State from [])) calls
    usedLast 2 h.past = [3, 1] ∧
      (h.call (.fetch 1 (.ok none))).1 = .fetched 1 (.ok (some "a")) ∧
      (h.call (.fetch 2 (.error failed))).1 = .fetched 2 (.error failed) := by
  intro failed calls h
  have hused : usedLast 2 h.past = [3, 1] := by decide +kernel
  have fetch := hit_iff_used_last (keepsRecent_listTable 2) (by decide) [] rfl calls
  obtain ⟨hit, -⟩ := fetch 1 (.ok none)
  obtain ⟨-, miss, -⟩ := fetch 2 (.error failed)
  obtain ⟨key, hkey, hanswer, -⟩ := hit (by rw [hused]; decide)
  have hlatest : h.loaded.lookup 1 = some (.ok (some "a")) := by rfl
  cases hlatest.symm.trans hkey
  exact ⟨hused, hanswer, (miss (by rw [hused]; decide)).1⟩

end LoadingKeys

end SpatialSegment
