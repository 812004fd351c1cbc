import Mathlib.Tactic.IntervalCases
import SpatialSegment.Filter
import SpatialSegment.Proofs.Word

/-!
# A filter knows its keys

Setting a bit clears none, so the bits of a key stay set whatever is added after it: wherever the
probes of a key go, a filter lets every key pass that was added to it. Its bytes are read back as
the same filter if the seed has its full length and the numbers fit their words, which they do for
every filter that is built, however its size is chosen.
-/

namespace SpatialSegment

namespace Filter

variable {bits : Array UInt8} {place : Nat → Nat}

/-! ## Bits -/

theorem mask_ne_zero (position : Nat) : mask position ≠ 0 := by
  rw [mask]
  have hlt : position % 8 < 8 := Nat.mod_lt _ (by decide)
  interval_cases position % 8 <;> decide

/-- A bit that is set in one of two bytes is set in both together. -/
theorem or_and_ne_zero {a b m : UInt8} (hset : a &&& m ≠ 0 ∨ b &&& m ≠ 0) :
    (a ||| b) &&& m ≠ 0 := by
  have hand : (a ||| b) &&& m = (a &&& m) ||| (b &&& m) := by
    apply UInt8.toBitVec_inj.mp
    simp only [UInt8.toBitVec_and, UInt8.toBitVec_or]
    ext i
    simp [Bool.and_or_distrib_right]
  rw [hand]
  intro hzero
  obtain ⟨ha, hb⟩ := UInt8.or_eq_zero_iff.mp hzero
  rcases hset with hne | hne
  · exact hne ha
  · exact hne hb

theorem isSet_iff {position : Nat} :
    isSet bits position = true ↔ (bits[position / 8]?.getD 0) &&& mask position ≠ 0 := by
  rw [isSet, bne_iff_ne]

@[simp] theorem size_setBit (bits : Array UInt8) (position : Nat) :
    (setBit bits position).size = bits.size := by
  rw [setBit, Array.size_modify]

theorem isSet_setBit_self {position : Nat} (hposition : position < 8 * bits.size) :
    isSet (setBit bits position) position = true := by
  have hbyte : position / 8 < bits.size := by omega
  rw [isSet_iff, setBit, Array.getElem?_modify, if_pos rfl, Array.getElem?_eq_getElem hbyte]
  refine or_and_ne_zero (Or.inr ?_)
  rw [UInt8.and_self]
  exact mask_ne_zero position

theorem isSet_setBit {position other : Nat} (hset : isSet bits other = true) :
    isSet (setBit bits position) other = true := by
  rw [isSet_iff] at hset ⊢
  rw [setBit, Array.getElem?_modify]
  by_cases heq : position / 8 = other / 8
  · rw [if_pos heq]
    cases hbyte : bits[other / 8]? with
    | none =>
      rw [hbyte] at hset
      simp at hset
    | some b =>
      rw [hbyte] at hset
      exact or_and_ne_zero (Or.inl hset)
  · rw [if_neg heq]
    exact hset

/-! ## Keys -/

@[simp] theorem size_setAll (bits : Array UInt8) (place : Nat → Nat) (i left : Nat) :
    (setAll bits place i left).size = bits.size := by
  induction left generalizing bits i with
  | zero => rfl
  | succ left ih => rw [setAll, ih, size_setBit]

theorem isSet_setAll {i left other : Nat} (hset : isSet bits other = true) :
    isSet (setAll bits place i left) other = true := by
  induction left generalizing bits i with
  | zero => exact hset
  | succ left ih => exact ih (isSet_setBit hset)

theorem allSet_iff {i left : Nat} :
    allSet bits place i left = true ↔
      ∀ j, i ≤ j → j < i + left → isSet bits (place j) = true := by
  induction left generalizing i with
  | zero =>
    refine ⟨fun _ j hle hlt => ?_, fun _ => rfl⟩
    omega
  | succ left ih =>
    rw [allSet, Bool.and_eq_true, ih]
    constructor
    · rintro ⟨hfirst, hrest⟩ j hle hlt
      rcases Nat.lt_or_eq_of_le hle with hgreater | rfl
      · exact hrest j hgreater (by omega)
      · exact hfirst
    · intro hall
      exact ⟨hall i (Nat.le_refl i) (by omega), fun j hle hlt => hall j (by omega) (by omega)⟩

theorem isSet_setAll_self {i left j : Nat} (inside : ∀ j, place j < 8 * bits.size) (hle : i ≤ j)
    (hlt : j < i + left) : isSet (setAll bits place i left) (place j) = true := by
  induction left generalizing bits i with
  | zero => omega
  | succ left ih =>
    rw [setAll]
    rcases Nat.lt_or_eq_of_le hle with hgreater | rfl
    · refine ih (fun j => ?_) hgreater (by omega)
      rw [size_setBit]
      exact inside j
    · exact isSet_setAll (isSet_setBit_self (inside i))

/-- What a key needs to pass is kept by adding keys. -/
theorem allSet_setAll {place' : Nat → Nat} {i left i' left' : Nat}
    (hset : allSet bits place i left = true) :
    allSet (setAll bits place' i' left') place i left = true := by
  rw [allSet_iff] at hset ⊢
  intro j hle hlt
  exact isSet_setAll (hset j hle hlt)

variable {placement : Placement} {f : Filter} {key : String}

theorem place_lt (hsize : 0 < f.bits.size) (key : String) (i : Nat) :
    f.place placement key i < 8 * f.bits.size :=
  placement.position_lt hsize f.probes f.seed key i

@[simp] theorem seed_addWith (f : Filter) (key : String) :
    (f.addWith placement key).seed = f.seed := rfl

@[simp] theorem probes_addWith (f : Filter) (key : String) :
    (f.addWith placement key).probes = f.probes := rfl

@[simp] theorem size_addWith (f : Filter) (key : String) :
    (f.addWith placement key).bits.size = f.bits.size :=
  size_setAll f.bits _ 0 f.probes

/-- Adding keys moves no probe. -/
@[simp] theorem place_addWith (f : Filter) (key other : String) :
    (f.addWith placement key).place placement other = f.place placement other := by
  rw [place, place, size_addWith, probes_addWith, seed_addWith]

theorem containsWith?_eq (hsize : 0 < f.bits.size) (key : String) :
    f.containsWith? placement key = some (allSet f.bits (f.place placement key) 0 f.probes) := by
  rw [containsWith?, if_neg (by omega)]

/-- A filter in which no bit is set stops every key. -/
theorem containsWith?_of_clear (hsize : 0 < f.bits.size) (hprobes : 0 < f.probes)
    (hclear : ∀ b ∈ f.bits, b = 0) (key : String) :
    f.containsWith? placement key = some false := by
  rw [containsWith?_eq hsize, Option.some.injEq, Bool.eq_false_iff]
  intro hall
  have hset := allSet_iff.mp hall 0 (Nat.le_refl 0) (by omega)
  rw [isSet_iff] at hset
  cases hbyte : f.bits[f.place placement key 0 / 8]? with
  | none => simp [hbyte] at hset
  | some b =>
    have hb := hclear b (Array.mem_of_getElem? hbyte)
    simp [hbyte, hb] at hset

theorem containsWith?_addWith_self (hsize : 0 < f.bits.size) (key : String) :
    (f.addWith placement key).containsWith? placement key = some true := by
  rw [containsWith?_eq (by rwa [size_addWith]), place_addWith, probes_addWith, Option.some.injEq,
    allSet_iff]
  intro j hle hlt
  exact isSet_setAll_self (place_lt hsize key) hle hlt

theorem containsWith?_addWith (hsize : 0 < f.bits.size)
    (hkey : f.containsWith? placement key = some true) (other : String) :
    (f.addWith placement other).containsWith? placement key = some true := by
  rw [containsWith?_eq hsize, Option.some.injEq] at hkey
  rw [containsWith?_eq (by rwa [size_addWith]), place_addWith, Option.some.injEq]
  exact allSet_setAll hkey

@[simp] theorem size_foldl_addWith (f : Filter) (keys : List String) :
    (keys.foldl (addWith placement) f).bits.size = f.bits.size := by
  induction keys generalizing f with
  | nil => rfl
  | cons key keys ih => rw [List.foldl_cons, ih, size_addWith]

@[simp] theorem probes_foldl_addWith (f : Filter) (keys : List String) :
    (keys.foldl (addWith placement) f).probes = f.probes := by
  induction keys generalizing f with
  | nil => rfl
  | cons key keys ih => rw [List.foldl_cons, ih, probes_addWith]

@[simp] theorem seed_foldl_addWith (f : Filter) (keys : List String) :
    (keys.foldl (addWith placement) f).seed = f.seed := by
  induction keys generalizing f with
  | nil => rfl
  | cons key keys ih => rw [List.foldl_cons, ih, seed_addWith]

theorem containsWith?_foldl_addWith (hsize : 0 < f.bits.size)
    (hkey : f.containsWith? placement key = some true) (keys : List String) :
    (keys.foldl (addWith placement) f).containsWith? placement key = some true := by
  induction keys generalizing f with
  | nil => exact hkey
  | cons other keys ih =>
    exact ih (by rwa [size_addWith]) (containsWith?_addWith hsize hkey other)

/-- Every key that was added passes. -/
theorem containsWith?_of_mem (hsize : 0 < f.bits.size) {keys : List String} (hkey : key ∈ keys) :
    (keys.foldl (addWith placement) f).containsWith? placement key = some true := by
  induction keys generalizing f with
  | nil => cases hkey
  | cons other keys ih =>
    have hsize' : 0 < (f.addWith placement other).bits.size := by rwa [size_addWith]
    rcases List.mem_cons.mp hkey with rfl | hmem
    · exact containsWith?_foldl_addWith hsize' (containsWith?_addWith_self hsize key) keys
    · exact ih hsize' hmem

/-! ## Bytes -/

/-- A filter whose numbers fit their words and whose seed has its full length. -/
structure Storable (f : Filter) : Prop where
  seed : f.seed.length = 32
  probes_pos : 0 < f.probes
  probes_lt : f.probes < Word.limit 4
  size_lt : f.bits.size < Word.limit 8

theorem length_toBytes (storable : Storable f) : f.toBytes.length = headerLen + f.bits.size := by
  simp only [toBytes, List.length_append, List.length_cons, Word.length_little, storable.seed,
    headerLen, Array.length_toList]

/-- A filter is read back from its bytes. -/
theorem ofBytes_toBytes (storable : Storable f) : ofBytes f.toBytes = .ok f := by
  have hbytes : f.toBytes = [version] ++ Word.little 8 f.bits.size ++ Word.little 4 f.probes ++
      f.seed ++ f.bits.toList := rfl
  have hlength := length_toBytes storable
  have hsize : (f.toBytes.drop 1).take 8 = Word.little 8 f.bits.size := by
    simp [hbytes, Word.length_little]
  have hprobes : (f.toBytes.drop 9).take 4 = Word.little 4 f.probes := by
    simp [hbytes, Word.length_little]
  have hseed : (f.toBytes.drop 13).take 32 = f.seed := by
    simp [hbytes, List.drop_append, Word.length_little, storable.seed, List.drop_of_length_le]
  have hbits : f.toBytes.drop headerLen = f.bits.toList := by
    simp [hbytes, List.drop_append, Word.length_little, storable.seed, headerLen,
      List.drop_of_length_le]
  rw [ofBytes, if_neg (by rw [hlength]; omega), if_neg (by simp [hbytes])]
  simp only [hsize, hprobes, hseed, hbits, Word.ofLittle_little storable.size_lt,
    Word.ofLittle_little storable.probes_lt]
  rw [if_neg (Nat.ne_of_gt storable.probes_pos), if_neg (by simp), Array.toArray_toList]

/-- The parts of bytes that are long enough for a header. -/
theorem header_append {bs : Bytes} (hlong : headerLen ≤ bs.length)
    (hversion : bs.head? = some version) :
    bs = version :: (bs.drop 1).take 8 ++ (bs.drop 9).take 4 ++ (bs.drop 13).take 32 ++
      bs.drop headerLen := by
  obtain ⟨rest, rfl⟩ := List.head?_eq_some_iff.mp hversion
  have hbits : rest.drop 44 = (rest.drop 12).drop 32 := by rw [List.drop_drop]
  have hseed : rest.drop 12 = (rest.drop 8).drop 4 := by rw [List.drop_drop]
  simp only [headerLen, List.drop_succ_cons, List.drop_zero, List.cons_append, List.append_assoc]
  rw [hbits, List.take_append_drop, hseed, List.take_append_drop, List.take_append_drop]

/-- Only the bytes of a filter are read as one. -/
theorem of_ofBytes_eq_ok {bs : Bytes} (h : ofBytes bs = .ok f) : Storable f ∧ bs = f.toBytes := by
  rw [ofBytes] at h
  by_cases hshort : bs.length < headerLen
  · rw [if_pos hshort] at h
    cases h
  by_cases hversion : bs.head? ≠ some version
  · rw [if_neg hshort, if_pos hversion] at h
    cases h
  rw [if_neg hshort, if_neg hversion] at h
  dsimp only at h
  by_cases hprobes : Word.ofLittle ((bs.drop 9).take 4) = 0
  · rw [if_pos hprobes] at h
    cases h
  by_cases hsize : (bs.drop headerLen).length ≠ Word.ofLittle ((bs.drop 1).take 8)
  · rw [if_neg hprobes, if_pos hsize] at h
    cases h
  rw [if_neg hprobes, if_neg hsize] at h
  cases h
  have hpart : ∀ start len, start + len ≤ headerLen →
      ((bs.drop start).take len).length = len := by
    intro start len hle
    rw [List.length_take, List.length_drop]
    omega
  have hbits := Decidable.not_not.mp hsize
  refine ⟨⟨hpart 13 32 (by decide), Nat.pos_of_ne_zero hprobes,
    Word.ofLittle_lt (hpart 9 4 (by decide)), ?_⟩, ?_⟩
  · rw [List.size_toArray, hbits]
    exact Word.ofLittle_lt (hpart 1 8 (by decide))
  · rw [toBytes, List.size_toArray, hbits, Word.little_ofLittle (hpart 1 8 (by decide)),
      Word.little_ofLittle (hpart 9 4 (by decide))]
    exact header_append (Nat.le_of_not_lt hshort) (Decidable.not_not.mp hversion)

/-! ## Building -/

section Building

variable {sizing : Sizing} {seed : Bytes} {keys : List String} {expected : Nat} {rate : Float}

/-- A filter is built from a blank one that has bits, and not more than can be counted. -/
theorem buildWith?_eq_some_iff :
    buildWith? placement sizing seed keys expected rate = some f ↔
      (0.0 < rate ∧ rate < 1.0) ∧ 0 < sizing.bytes (max expected 1) rate ∧
        sizing.bytes (max expected 1) rate < bytesLimit ∧
        keys.foldl (addWith placement)
          ⟨seed, sizing.probes (sizing.bytes (max expected 1) rate) (max expected 1),
            Array.replicate (sizing.bytes (max expected 1) rate) 0⟩ = f := by
  unfold buildWith?
  by_cases hrate : 0.0 < rate ∧ rate < 1.0
  · rw [if_pos hrate]
    dsimp only
    by_cases hbytes : sizing.bytes (max expected 1) rate = 0 ∨
        bytesLimit ≤ sizing.bytes (max expected 1) rate
    · rw [if_pos hbytes]
      constructor
      · rintro ⟨⟩
      · rintro ⟨-, hpos, hlt, -⟩
        omega
    · rw [if_neg hbytes, Option.some.injEq]
      exact ⟨fun h => ⟨hrate, by omega, by omega, h⟩, fun h => h.2.2.2⟩
  · rw [if_neg hrate]
    constructor
    · rintro ⟨⟩
    · rintro ⟨hrate', -⟩
      exact absurd hrate' hrate

/-- Every filter that is built can be stored, has bits, and lets its keys pass. -/
theorem of_buildWith? (hseed : seed.length = 32)
    (h : buildWith? placement sizing seed keys expected rate = some f) :
    Storable f ∧ 0 < f.bits.size ∧ ∀ key ∈ keys, f.containsWith? placement key = some true := by
  obtain ⟨-, hpos, hlt, rfl⟩ := buildWith?_eq_some_iff.mp h
  have hlimit : bytesLimit < Word.limit 8 := by decide
  refine ⟨⟨?_, ?_, ?_, ?_⟩, ?_, ?_⟩
  · rw [seed_foldl_addWith]
    exact hseed
  · rw [probes_foldl_addWith]
    exact sizing.probes_pos _ _
  · rw [probes_foldl_addWith]
    exact sizing.probes_lt _ _
  · rw [size_foldl_addWith, Array.size_replicate]
    exact hlt.trans hlimit
  · rw [size_foldl_addWith, Array.size_replicate]
    exact hpos
  · intro key hkey
    refine containsWith?_of_mem ?_ hkey
    rw [Array.size_replicate]
    exact hpos

end Building

/-- The same bits and probes for every filter. -/
def Sizing.fixed (bytes probes : Nat) (probes_pos : 0 < probes)
    (probes_lt : probes < Word.limit 4) : Sizing :=
  ⟨fun _ _ => bytes, fun _ _ => probes, fun _ _ => probes_pos, fun _ _ => probes_lt⟩

end Filter

namespace Gate

variable {f : Filter}

theorem ofBytes_of_storable (storable : f.Storable) : ofBytes f.toBytes = .ok ⟨some f⟩ := by
  rw [ofBytes, Filter.ofBytes_toBytes storable]

/-- The bytes of a filter load as an active gate that every key of the filter passes. With a share
of wrong answers between 0 and 1 and a sizing that gives bits, only a filter with more bits than can
be counted is refused. The placement and the sizing in use give the filters and gates in use. -/
theorem keys_pass_after_build (placement : Filter.Placement) (sizing : Filter.Sizing)
    (seed : Bytes) (keys : List String) (expected : Nat) (rate : Float) (hseed : seed.length = 32)
    (hrate : 0.0 < rate ∧ rate < 1.0) (hbits : 0 < sizing.bytes (max expected 1) rate) :
    (placement = .hashed → (∀ gate key, passesWith? placement gate key = gate.passes? key) ∧
        (sizing = .best → Filter.buildWith? placement sizing seed keys expected rate =
          Filter.build? seed keys expected rate)) ∧
      ((∃ f, Filter.buildWith? placement sizing seed keys expected rate = some f) ↔
        sizing.bytes (max expected 1) rate < Filter.bytesLimit) ∧
      ∀ f, Filter.buildWith? placement sizing seed keys expected rate = some f →
        ∃ gate, ofBytes f.toBytes = .ok gate ∧ gate.isActive = true ∧
          ∀ key ∈ keys, gate.passesWith? placement key = some true := by
  refine ⟨?_, ⟨?_, ?_⟩, ?_⟩
  · rintro rfl
    refine ⟨fun _ _ => rfl, ?_⟩
    rintro rfl
    rfl
  · rintro ⟨f, hbuild⟩
    exact (Filter.buildWith?_eq_some_iff.mp hbuild).2.2.1
  · intro hlt
    exact ⟨_, Filter.buildWith?_eq_some_iff.mpr ⟨hrate, hbits, hlt, rfl⟩⟩
  · intro f hbuild
    obtain ⟨storable, -, hkeys⟩ := Filter.of_buildWith? hseed hbuild
    exact ⟨⟨some f⟩, ofBytes_of_storable storable, rfl, hkeys⟩

/-- Two bytes of bits and eleven probes, the best for one key and a share of 0.01, for more keys
than expected. -/
theorem keys_pass_after_build_crowded :
    ∃ f gate,
      Filter.buildWith? .hashed (.fixed 2 11 (by decide) (by decide)) (List.replicate 32 0)
        ["a", "b", "", "a"] 1 0.01 = some f ∧
      ofBytes f.toBytes = .ok gate ∧ gate.isActive = true ∧ gate.passes? "a" = some true ∧
      gate.passes? "b" = some true ∧ gate.passes? "" = some true := by
  obtain ⟨hinstance, hbuilt, hpass⟩ := keys_pass_after_build .hashed
    (.fixed 2 11 (by decide) (by decide)) (List.replicate 32 0) ["a", "b", "", "a"] 1 0.01
    List.length_replicate (by decide) (by decide)
  have hgates := (hinstance rfl).1
  obtain ⟨f, hf⟩ := hbuilt.mpr (by decide)
  obtain ⟨gate, hgate, hactive, hkeys⟩ := hpass f hf
  refine ⟨f, gate, hf, hgate, hactive, ?_, ?_, ?_⟩
  · rw [← hgates]
    exact hkeys "a" (by decide)
  · rw [← hgates]
    exact hkeys "b" (by decide)
  · rw [← hgates]
    exact hkeys "" (by decide)

end Gate

end SpatialSegment
