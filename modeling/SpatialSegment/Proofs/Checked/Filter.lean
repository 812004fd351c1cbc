import SpatialSegment.Proofs.Checked.Steps
import SpatialSegment.Proofs.Filter

/-!
# Only a filter without bits crashes

A probe is reduced to the number of bits, and the byte with its bit is looked up. Where there are
bits the remainder is that of a division by more than 0 and the byte is there. A filter without bits
is accepted all the same if its bytes tell so: its first probe, and there is one, crashes.
-/

namespace SpatialSegment

open Machine

namespace Machine

/-- The remainder of a division; there is none by 0. -/
def rem (a b : Nat) : Machine Nat :=
  if b = 0 then throw .panic else return a % b

theorem rem_eq {a b : Nat} (h : 0 < b) : rem a b = pure (a % b) :=
  if_neg (Nat.ne_of_gt h)

theorem rem_zero (a : Nat) : rem a 0 = throw .panic := rfl

end Machine

namespace Filter

/-- Whether the bits at the places of `left` probes from index `i` on are all set, with the hashes
of the key. -/
def checkedAllSet (bits : Array UInt8) (h : UInt64 × UInt64) (i : Nat) :
    (left : Nat) → Machine Bool
  | 0 => return true
  | left + 1 => do
    let position ← rem (probe h i) (8 * bits.size)
    let byte ← item bits.toList (position / 8)
    if byte &&& mask position != 0 then checkedAllSet bits h (i + 1) left else return false

variable {bits : Array UInt8} {h : UInt64 × UInt64}

theorem checkedAllSet_eq (hsize : 0 < bits.size) (i left : Nat) :
    checkedAllSet bits h i left = pure (allSet bits (position bits.size h) i left) := by
  induction left generalizing i with
  | zero => rfl
  | succ left ih =>
    have hlt : position bits.size h i / 8 < bits.size := by
      have := position_lt hsize h i
      omega
    have hbyte : bits.toList[position bits.size h i / 8]? =
        some bits[position bits.size h i / 8] := by
      rw [Array.getElem?_toList, Array.getElem?_eq_getElem hlt]
    have hposition : rem (probe h i) (8 * bits.size) = pure (position bits.size h i) :=
      rem_eq (by omega)
    rw [checkedAllSet, hposition, pure_bind, item_eq hbyte, pure_bind, allSet, isSet,
      Array.getElem?_eq_getElem hlt, Option.getD_some, ih]
    cases bits[position bits.size h i / 8] &&& mask (position bits.size h i) != 0 <;> rfl

/-- A key has the places of its hashes. -/
theorem place_hashed (f : Filter) (key : String) :
    f.place .hashed key = position f.bits.size (hashes f.seed key) := rfl

/-- The first probe of a filter without bits crashes. -/
theorem checkedAllSet_of_no_bits (hsize : bits.size = 0) (i : Nat) {left : Nat} (hleft : 0 < left) :
    checkedAllSet bits h i left = throw .panic := by
  obtain ⟨left, rfl⟩ := Nat.exists_eq_succ_of_ne_zero (Nat.ne_of_gt hleft)
  rw [checkedAllSet, hsize, Nat.mul_zero, rem_zero]
  rfl

end Filter

namespace Gate

/-- Whether the gate lets the key pass. -/
def checkedPasses (g : Gate) (key : String) : Machine Bool :=
  match g.filter with
  | none => return true
  | some f => Filter.checkedAllSet f.bits (Filter.hashes f.seed key) 0 f.probes

/-- Its filter, if there is one, has a probe. -/
def Probing (g : Gate) : Prop :=
  ∀ f, g.filter = some f → 0 < f.probes

theorem probing_absent : Gate.absent.Probing := by
  intro f h
  cases h

/-- A gate has no answer exactly with a filter without bits. -/
theorem passes?_eq_none_iff {g : Gate} {key : String} :
    g.passes? key = none ↔ ∃ f, g.filter = some f ∧ f.bits.size = 0 := by
  rw [passes?, passesWith?]
  cases g.filter with
  | none => simp
  | some f => simp [Filter.containsWith?]

/-- To ask a gate crashes where its answer is not defined. -/
theorem checkedPasses_eq {g : Gate} (probing : g.Probing) (key : String) :
    g.checkedPasses key =
      (match g.passes? key with
        | some passes => pure passes
        | none => throw .panic) := by
  rw [checkedPasses, passes?, passesWith?]
  cases hfilter : g.filter with
  | none => rfl
  | some f =>
    dsimp only
    by_cases hsize : f.bits.size = 0
    · rw [Filter.checkedAllSet_of_no_bits hsize 0 (probing f hfilter), Filter.containsWith?,
        if_pos hsize]
    · rw [Filter.checkedAllSet_eq (Nat.pos_of_ne_zero hsize),
        Filter.containsWith?_eq (Nat.pos_of_ne_zero hsize), Filter.place_hashed]

end Gate

end SpatialSegment
