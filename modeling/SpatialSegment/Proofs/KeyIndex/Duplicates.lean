import SpatialSegment.KeyIndex.Cached
import SpatialSegment.Proofs.KeyIndex.Exact
import SpatialSegment.Proofs.Tuple.Decoding

/-!
# Keys that repeat

An index may hold any offsets that lead to records of a log, several times the same one among them
and records of the same key, as long as the keys do not decrease. A search gives the offsets of all
ordinals with the key, whatever earlier answers have put into the cache.
-/

namespace SpatialSegment

namespace KeySearch

variable {keys : List String} {key : String}

theorem Ordered.absent_below_first (ordered : Ordered keys) {first : String}
    (hfirst : first ∈ keys.head?) (h : Text.compare key first = .lt) (i : Nat) :
    keys[i]? ≠ some key := by
  intro hi
  rw [List.head?_eq_getElem?] at hfirst
  exact Text.not_notAfter_of_lt h (ordered.notAfter (Nat.zero_le i) hfirst hi)

theorem Ordered.absent_above_last (ordered : Ordered keys) {last : String}
    (hlast : last ∈ keys.getLast?) (h : Text.compare last key = .lt) (i : Nat) :
    keys[i]? ≠ some key := by
  intro hi
  rw [List.getLast?_eq_getElem?] at hlast
  have hlt := (List.getElem?_eq_some_iff.mp hi).1
  exact Text.not_notAfter_of_lt h (ordered.notAfter (by omega) hi hlast)

theorem Ordered.absent_between (ordered : Ordered keys) {i : Nat} {s t : String}
    (hs : keys[i]? = some s) (ht : keys[i + 1]? = some t) (hbelow : Text.compare s key = .lt)
    (habove : Text.compare key t = .lt) (j : Nat) : keys[j]? ≠ some key := by
  intro hj
  have hij := ordered.lt_of_lt hs hj hbelow
  exact Text.not_notAfter_of_lt habove (ordered.notAfter hij ht hj)

end KeySearch

namespace KeyIndex

variable {fs : FileSystem} {x : KeyIndex} {offsets : List Nat} {keys : List String}

/-- The index is open and holds the offsets, which lead to records of an open log; these can be
decoded and have the keys. No file is longer than offsets in it can be. -/
structure Points (fs : FileSystem) (x : KeyIndex) (offsets : List Nat) (keys : List String) :
    Prop where
  index : x.file.Shows fs (offsetBytes offsets)
  room : (offsetBytes offsets).length ≤ View.signedLimit
  offset_le : ∀ o ∈ offsets, o ≤ Word.maxSigned32
  length_eq : offsets.length = keys.length
  log : ∃ content, x.log.file.Shows fs content ∧ ∀ i o : Nat, offsets[i]? = some o →
    ∃ (t : Tuple) (stop : Nat), Record.decode content o = .ok (t, stop) ∧ keys[i]? = some t.key

namespace Points

theorem offsetAt_eq (points : Points fs x offsets keys) {i o : Nat} (ho : offsets[i]? = some o) :
    x.offsetAt fs i = .ok (some o) :=
  offsetAt_of_shows points.index points.room ho (points.offset_le o (List.mem_of_getElem? ho))

/-- Every ordinal gives the key of its record. -/
theorem tells (points : Points fs x offsets keys) : KeySearch.Tells (x.loadKey fs) keys := by
  intro i key hkey
  obtain ⟨content, shows, decodes⟩ := points.log
  have hi := (List.getElem?_eq_some_iff.mp hkey).1
  obtain ⟨o, ho⟩ : ∃ o, offsets[i]? = some o :=
    ⟨_, List.getElem?_eq_getElem (points.length_eq ▸ hi)⟩
  obtain ⟨t, stop, hdecode, ht⟩ := decodes i o ho
  obtain rfl : t.key = key := Option.some.inj (ht.symm.trans hkey)
  obtain ⟨before, after, rfl, rfl, fits, -⟩ := Record.decode_eq_ok_iff.mp hdecode
  have hle := points.offset_le _ (List.mem_of_getElem? ho)
  have hmax : Word.maxSigned32 = 2147483647 := rfl
  have hsigned : View.signedLimit = 9223372036854775808 := rfl
  rw [loadKey, points.offsetAt_eq ho, ok_bind]
  exact Log.keyAt_eq shows fits (by omega)

/-- A search without a cache gives the offsets of all ordinals with the key. -/
theorem loadPositions_eq (points : Points fs x offsets keys) (ordered : KeySearch.Ordered keys)
    (key : String) :
    x.loadPositions fs key =
      .ok ((KeySearch.positionsOf keys key).filterMap fun i => offsets[i]?) := by
  have hlength : x.length = keys.length := by
    rw [length_of_shows points.index, points.length_eq]
  exact KeyIndex.loadPositions_eq hlength points.length_eq (fun i o ho => points.offsetAt_eq ho)
    points.tells ordered key

/-- Every ordinal with the key has an offset. -/
theorem map_some_offsets (points : Points fs x offsets keys) (key : String) :
    ((KeySearch.positionsOf keys key).filterMap fun i => offsets[i]?).map some =
      (KeySearch.positionsOf keys key).map fun i => offsets[i]? := by
  rw [List.map_filterMap_some_eq_filter_map_isSome]
  apply List.filter_eq_self.mpr
  intro found hfound
  obtain ⟨i, hi, rfl⟩ := List.mem_map.mp hfound
  have hlt := (List.getElem?_eq_some_iff.mp (KeySearch.mem_positionsOf.mp hi)).1
  rw [List.getElem?_eq_getElem (points.length_eq ▸ hlt)]
  rfl

end Points

end KeyIndex

namespace CachedIndex

open KeyIndex

variable {fs : FileSystem} {x y : CachedIndex}

/-- What calls make of an index that runs: a cache is activated, keys are looked up, one by one or
in a search. -/
inductive Consulted (fs : FileSystem) (x : CachedIndex) : CachedIndex → Prop
  | refl : Consulted fs x x
  | activate {y z : CachedIndex} {capacity : Nat} : Consulted fs x y →
      y.activate capacity = .ok z → Consulted fs x z
  | keyAt {y : CachedIndex} : Consulted fs x y → (ordinal : Nat) →
      Consulted fs x (y.run (y.index.keyAt fs ordinal)).2
  | positions {y : CachedIndex} : Consulted fs x y → (key : String) →
      Consulted fs x (y.run (y.index.positions fs key)).2

theorem run_fst {α : Type} (x : CachedIndex) (lookup : Lookup α) :
    (x.run lookup).1 = (lookup.run.run x.cache).1 := rfl

theorem run_snd {α : Type} (x : CachedIndex) (lookup : Lookup α) :
    (x.run lookup).2 = { x with cache := (lookup.run.run x.cache).2 } := rfl

/-- A cache that has been activated is empty, and the index does not change with it. -/
theorem of_activate {capacity : Nat} (h : x.activate capacity = .ok y)
    (faithful : FaithfulCache fs x.index x.cache) :
    y.index = x.index ∧ FaithfulCache fs y.index y.cache := by
  rw [activate] at h
  by_cases hzero : capacity = 0
  · rw [if_pos hzero] at h
    cases h
    exact ⟨rfl, faithful⟩
  · rw [if_neg hzero] at h
    split at h
    · cases h
    · cases h
    · rename_i cache hcache _
      cases h
      refine ⟨rfl, ?_⟩
      rintro c hc
      cases hc
      exact RecentKeys.faithful_empty hcache

/-- Calls leave the index as it is and its cache faithful. -/
theorem Consulted.faithful (consulted : Consulted fs x y) (fresh : x.cache = none) :
    y.index = x.index ∧ FaithfulCache fs x.index y.cache := by
  induction consulted with
  | refl =>
    refine ⟨rfl, fun c hc => ?_⟩
    rw [fresh] at hc
    cases hc
  | activate _ hactivate ih =>
    obtain ⟨hindex, hfaithful⟩ := ih
    rw [← hindex] at hfaithful ⊢
    obtain ⟨hindex', hfaithful'⟩ := of_activate hactivate hfaithful
    exact ⟨hindex', hindex' ▸ hfaithful'⟩
  | keyAt _ ordinal ih =>
    obtain ⟨hindex, hfaithful⟩ := ih
    refine ⟨hindex, ?_⟩
    rw [run_snd, hindex]
    exact (answers_keyAt ordinal _ hfaithful).2
  | positions _ key ih =>
    obtain ⟨hindex, hfaithful⟩ := ih
    refine ⟨hindex, ?_⟩
    rw [run_snd, hindex]
    exact (answers_positions key _ hfaithful).2

/-- A search ends with the offsets of exactly the ordinals that have the key, each once and in
order. It gives none for a key below the first one, above the last one or between two neighbours. -/
theorem positions_of_key (fs : FileSystem) (x y : CachedIndex) (offsets : List Nat)
    (keys : List String) (points : Points fs x.index offsets keys)
    (ordered : KeySearch.Ordered keys) (fresh : x.cache = none) (consulted : Consulted fs x y)
    (key : String) :
    ∃ ordinals answer : List Nat, (y.run (y.index.positions fs key)).1 = .ok answer ∧
      ordinals.Pairwise (· < ·) ∧ (∀ i, i ∈ ordinals ↔ keys[i]? = some key) ∧
      answer.map some = ordinals.map (fun i => offsets[i]?) ∧
      (∀ first ∈ keys.head?, Text.compare key first = .lt → answer = []) ∧
      (∀ last ∈ keys.getLast?, Text.compare last key = .lt → answer = []) ∧
      ∀ i s t, keys[i]? = some s → keys[i + 1]? = some t → Text.compare s key = .lt →
        Text.compare key t = .lt → answer = [] := by
  obtain ⟨hindex, hfaithful⟩ := consulted.faithful fresh
  have absent : (∀ i : Nat, keys[i]? ≠ some key) →
      ((KeySearch.positionsOf keys key).filterMap fun i => offsets[i]?) = [] := by
    intro h
    rw [KeySearch.positionsOf_eq_nil h]
    rfl
  refine ⟨KeySearch.positionsOf keys key,
    (KeySearch.positionsOf keys key).filterMap fun i => offsets[i]?, ?_,
    List.pairwise_lt_range.filter _, fun i => KeySearch.mem_positionsOf,
    points.map_some_offsets key, ?_, ?_, ?_⟩
  · rw [run_fst, hindex, (answers_positions key _ hfaithful).1]
    exact points.loadPositions_eq ordered key
  · intro first hfirst hlt
    exact absent (ordered.absent_below_first hfirst hlt)
  · intro last hlast hlt
    exact absent (ordered.absent_above_last hlast hlt)
  · intro i s t hs ht hbelow habove
    exact absent (ordered.absent_between hs ht hbelow habove)

/-- Two of three ordinals lead to the same record; its offset is found twice, also with what a
search for the other key has put into a cache. -/
theorem positions_of_key_twice :
    let early : Tuple := ⟨"a", Box.fullSpace, [7], 1, 3⟩
    let late : Tuple := ⟨"b", Box.fullSpace, [], 2, 4⟩
    let running : Service := ⟨.running, 0, none⟩
    let log : Bytes := FileFormat.tupleLog.magic ++ Record.stored early ++ Record.stored late
    let x : CachedIndex :=
      ⟨⟨⟨.keyIndex, ⟨"x.idx"⟩, .mapped, running, some (.mapped (offsetBytes [10, 38, 38]))⟩, none⟩,
        ⟨⟨.tupleLog, ⟨"x.sst"⟩, .mapped, running, some (.mapped log)⟩⟩, none⟩
    ∃ y z, x.activate 2 = .ok y ∧ (y.run (y.index.positions .empty "a")).2 = z ∧
      (z.run (z.index.positions .empty "b")).1 = .ok [38, 38] := by
  intro early late running log x
  have hearly : ∃ stop, Record.decode log 10 = .ok (early, stop) :=
    ⟨_, Record.decode_stored ⟨by decide, by decide, by decide⟩ FileFormat.tupleLog.magic
      (Record.stored late)⟩
  have hlate : ∃ stop, Record.decode log 38 = .ok (late, stop) := by
    have h := Record.decode_stored (t := late) ⟨by decide, by decide, by decide⟩
      (FileFormat.tupleLog.magic ++ Record.stored early) []
    rw [List.append_nil, List.length_append, Record.length_stored] at h
    exact ⟨_, h⟩
  have points : Points .empty x.index [10, 38, 38] ["a", "b", "b"] := by
    refine ⟨⟨rfl, _, rfl, View.shows_mapped _ _⟩, by rw [length_offsetBytes]; decide, by decide,
      rfl, log, ⟨rfl, _, rfl, View.shows_mapped _ _⟩, ?_⟩
    intro i o ho
    rcases i with _ | _ | _ | i
    · cases ho
      obtain ⟨stop, hdecode⟩ := hearly
      exact ⟨early, stop, hdecode, rfl⟩
    · cases ho
      obtain ⟨stop, hdecode⟩ := hlate
      exact ⟨late, stop, hdecode, rfl⟩
    · cases ho
      obtain ⟨stop, hdecode⟩ := hlate
      exact ⟨late, stop, hdecode, rfl⟩
    · cases ho
  have ordered : KeySearch.Ordered ["a", "b", "b"] := by
    unfold KeySearch.Ordered Text.NotAfter
    decide
  obtain ⟨y, hy⟩ : ∃ y, x.activate 2 = .ok y := ⟨_, rfl⟩
  have consulted : Consulted .empty x (y.run (y.index.positions .empty "a")).2 :=
    (Consulted.refl.activate hy).positions "a"
  obtain ⟨ordinals, answer, hanswer, hsorted, hmem, hoffsets, -⟩ :=
    positions_of_key .empty x _ [10, 38, 38] ["a", "b", "b"] points ordered rfl consulted "b"
  refine ⟨y, _, hy, rfl, ?_⟩
  have hordinals : ordinals = [1, 2] := by
    refine hsorted.eq_of_mem_iff (by decide) fun i => ?_
    rw [hmem]
    rcases i with _ | _ | _ | i <;> simp
  rw [hanswer]
  rw [hordinals] at hoffsets
  exact congrArg Except.ok (List.map_injective_iff.mpr (Option.some_injective _) hoffsets)

end CachedIndex

end SpatialSegment
