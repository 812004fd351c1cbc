import Mathlib.Data.List.Induction
import Mathlib.Tactic.Common
import SpatialSegment.Word

/-!
# Words are read back

A word holds its number up to the limit of its width, in either order of bytes, and a signed word
holds the numbers of the lower half.
-/

namespace SpatialSegment

namespace Word

theorem toNat_ofNat (n : Nat) : (UInt8.ofNat n).toNat = n % 256 := by
  simp [UInt8.toNat_ofNat']

theorem ofBig_append_singleton (bs : Bytes) (b : UInt8) :
    ofBig (bs ++ [b]) = ofBig bs * 256 + b.toNat := by
  simp [ofBig]

theorem ofBig_big {width n : Nat} (h : n < limit width) : ofBig (big width n) = n := by
  induction width generalizing n with
  | zero => exact (Nat.lt_one_iff.mp h).symm
  | succ width ih =>
    have hdiv : n / 256 < limit width := by
      rw [limit] at h
      omega
    rw [big, ofBig_append_singleton, ih hdiv, toNat_ofNat]
    omega

theorem ofBig_lt (bs : Bytes) : ofBig bs < limit bs.length := by
  induction bs using List.reverseRecOn with
  | nil => exact Nat.one_pos
  | append_singleton bs b ih =>
    have hb := b.toNat_lt
    rw [ofBig_append_singleton, List.length_append, List.length_singleton, limit]
    omega

/-- Bytes are the word of the number that they tell. -/
theorem big_ofBig (bs : Bytes) : big bs.length (ofBig bs) = bs := by
  induction bs using List.reverseRecOn with
  | nil => rfl
  | append_singleton bs b ih =>
    have hb := b.toNat_lt
    have hhigh : (ofBig bs * 256 + b.toNat) / 256 = ofBig bs := by omega
    have hlow : UInt8.ofNat (ofBig bs * 256 + b.toNat) = b := by
      apply UInt8.toNat_inj.mp
      rw [toNat_ofNat]
      omega
    rw [ofBig_append_singleton, List.length_append, List.length_singleton, big, hhigh, hlow, ih]

theorem ofLittle_little {width n : Nat} (h : n < limit width) : ofLittle (little width n) = n := by
  induction width generalizing n with
  | zero => exact (Nat.lt_one_iff.mp h).symm
  | succ width ih =>
    have hdiv : n / 256 < limit width := by
      rw [limit] at h
      omega
    have hrest := ih hdiv
    rw [ofLittle] at hrest ⊢
    rw [little, List.foldr_cons, hrest, toNat_ofNat]
    omega

theorem ofLittle_lt {width : Nat} {bs : Bytes} (h : bs.length = width) :
    ofLittle bs < limit width := by
  subst h
  induction bs with
  | nil => exact Nat.one_pos
  | cons b bs ih =>
    have hb := b.toNat_lt
    change b.toNat + 256 * ofLittle bs < 256 * limit bs.length
    omega

theorem little_ofLittle {width : Nat} {bs : Bytes} (h : bs.length = width) :
    little width (ofLittle bs) = bs := by
  subst h
  induction bs with
  | nil => rfl
  | cons b bs ih =>
    have hb := b.toNat_lt
    have hlow : UInt8.ofNat (b.toNat + 256 * ofLittle bs) = b := by
      apply UInt8.toNat_inj.mp
      rw [toNat_ofNat]
      omega
    have hhigh : (b.toNat + 256 * ofLittle bs) / 256 = ofLittle bs := by omega
    change UInt8.ofNat (b.toNat + 256 * ofLittle bs) ::
      little bs.length ((b.toNat + 256 * ofLittle bs) / 256) = b :: bs
    rw [hlow, hhigh, ih]

theorem signed_of_small {width n : Nat} (h : 2 * n < limit width) : signed width n = n := by
  rw [signed, if_pos h]

theorem signed_le (width n : Nat) : signed width n ≤ n := by
  rw [signed]
  split <;> omega

/-- A signed word of four bytes holds what is at most `maxSigned32`. -/
theorem signed_ofBig_big {n : Nat} (h : n ≤ maxSigned32) : signed 4 (ofBig (big 4 n)) = n := by
  have hlimit : limit 4 = 4294967296 := rfl
  have hmax : maxSigned32 = 2147483647 := rfl
  rw [ofBig_big (by omega), signed_of_small (by omega)]

end Word

namespace Bytes

theorem split?_append {n : Nat} {head : Bytes} (h : head.length = n) (rest : Bytes) :
    split? n (head ++ rest) = some (head, rest) :=
  split?_eq_some_iff.mpr ⟨rfl, h⟩

theorem split?_big (width n : Nat) (rest : Bytes) :
    split? width (Word.big width n ++ rest) = some (Word.big width n, rest) :=
  split?_append (Word.length_big width n) rest

theorem slice?_append {offset len : Nat} {before middle : Bytes} (hbefore : before.length = offset)
    (hmiddle : middle.length = len) (rest : Bytes) :
    slice? (before ++ middle ++ rest) offset len = some middle := by
  rw [slice?_eq_some_iff]
  subst hbefore hmiddle
  refine ⟨by simp, ?_⟩
  rw [List.append_assoc, List.drop_left, List.take_left]

end Bytes

end SpatialSegment
