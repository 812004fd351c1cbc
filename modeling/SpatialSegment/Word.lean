/-!
# Fixed-width words as bytes

A word of `width` bytes is a natural number below `limit width`. Files of a segment store words most
significant byte first; the summary file and the membership filter store them least significant byte
first. Nothing here knows how long a word of a particular field is.
-/

namespace SpatialSegment

/-- The content of a file, of a field, or of what is left to read. -/
abbrev Bytes := List UInt8

namespace Word

/-- The low `width` bytes of `n`, most significant first. -/
def big : (width : Nat) → (n : Nat) → Bytes
  | 0, _ => []
  | width + 1, n => big width (n / 256) ++ [UInt8.ofNat n]

/-- The low `width` bytes of `n`, least significant first. -/
def little : (width : Nat) → (n : Nat) → Bytes
  | 0, _ => []
  | width + 1, n => UInt8.ofNat n :: little width (n / 256)

/-- The number written most significant byte first. -/
def ofBig (bs : Bytes) : Nat :=
  bs.foldl (fun n b => n * 256 + b.toNat) 0

/-- The number written least significant byte first. -/
def ofLittle (bs : Bytes) : Nat :=
  bs.foldr (fun b n => b.toNat + 256 * n) 0

/-- The first number that `width` bytes cannot hold. -/
def limit : (width : Nat) → Nat
  | 0 => 1
  | width + 1 => 256 * limit width

/-- The two's complement reading of an unsigned word of `width` bytes. -/
def signed (width n : Nat) : Int :=
  if 2 * n < limit width then n else (n : Int) - limit width

/-- The largest number that a signed word of four bytes holds. -/
def maxSigned32 : Nat := 2147483647

/-- The largest number that a signed word of two bytes holds. -/
def maxSigned16 : Nat := 32767

theorem length_big (width n : Nat) : (big width n).length = width := by
  induction width generalizing n with
  | zero => rfl
  | succ width ih => simp [big, ih]

theorem length_little (width n : Nat) : (little width n).length = width := by
  induction width generalizing n with
  | zero => rfl
  | succ width ih => simp [little, ih]

end Word

namespace Bytes

/-- The first `n` bytes and the rest; `none` if there are fewer. -/
def split? (n : Nat) (bs : Bytes) : Option (Bytes × Bytes) :=
  let head := bs.take n
  if head.length = n then some (head, bs.drop n) else none

/-- The `len` bytes from `offset` on, if all of them are there. -/
def slice? (bs : Bytes) (offset len : Nat) : Option Bytes :=
  if offset + len ≤ bs.length then some ((bs.drop offset).take len) else none

theorem split?_eq_some_iff {n : Nat} {bs head rest : Bytes} :
    split? n bs = some (head, rest) ↔ bs = head ++ rest ∧ head.length = n := by
  constructor
  · intro h
    simp only [split?] at h
    split at h
    · rename_i hlen
      simp only [Option.some.injEq, Prod.mk.injEq] at h
      obtain ⟨rfl, rfl⟩ := h
      exact ⟨(List.take_append_drop n bs).symm, hlen⟩
    · cases h
  · rintro ⟨rfl, rfl⟩
    simp [split?]

theorem slice?_eq_some_iff {bs out : Bytes} {offset len : Nat} :
    slice? bs offset len = some out ↔
      offset + len ≤ bs.length ∧ (bs.drop offset).take len = out := by
  simp only [slice?]
  split
  · rename_i h
    simp [h]
  · rename_i h
    simp [h]

end Bytes

end SpatialSegment
