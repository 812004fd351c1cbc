import Mathlib.Data.List.Basic
import SpatialSegment.Text.Split

/-!
# Numerals and what stands around them

What is cut off a text at its front or end and what remains make up the text. A word is read off
exactly those texts that are its decimal digits behind any number of zeros, with a plus sign in
front or none; the plain digits are one of them, so the words that are written are read back.
-/

namespace SpatialSegment

namespace Text

theorem behind?_eq_some_iff {beginning cs rest : List Char} :
    behind? beginning cs = some rest ↔ cs = beginning ++ rest := by
  induction beginning generalizing cs with
  | nil => simp [behind?]
  | cons b beginning ih =>
    cases cs with
    | nil => simp [behind?]
    | cons c cs =>
      rw [behind?, List.cons_append, List.cons.injEq]
      by_cases hbc : b = c
      · rw [if_pos hbc, ih]
        exact ⟨fun h => ⟨hbc.symm, h⟩, fun h => h.2⟩
      · rw [if_neg hbc]
        constructor
        · intro h
          cases h
        · rintro ⟨hcb, -⟩
          exact absurd hcb.symm hbc

theorem before?_eq_some_iff {ending cs rest : List Char} :
    before? ending cs = some rest ↔ cs = rest ++ ending := by
  rw [before?, Option.map_eq_some_iff]
  constructor
  · rintro ⟨back, hback, rfl⟩
    have hcs := behind?_eq_some_iff.mp hback
    apply List.reverse_injective
    simpa using hcs
  · rintro rfl
    exact ⟨rest.reverse, behind?_eq_some_iff.mpr List.reverse_append, List.reverse_reverse rest⟩

/-! ## Digits -/

theorem digitChar_of_isDigit {c : Char} (h : c.isDigit = true) :
    c.toNat - 48 < 10 ∧ Nat.digitChar (c.toNat - 48) = c := by
  obtain ⟨hlow, hhigh⟩ := Char.isDigit_iff_toNat.mp h
  have hzero : '0'.toNat = 48 := rfl
  have hnine : '9'.toNat = 57 := rfl
  have hlt : c.toNat - 48 < 10 := by omega
  refine ⟨hlt, Char.toNat_inj.mp ?_⟩
  have hchar := Nat.toNat_digitChar_of_lt_ten hlt
  omega

/-- Digits behind those of a number that is not 0 go on with its digits. -/
theorem toDigits_append_digits {digits : List Char} (all : ∀ c ∈ digits, c.isDigit = true)
    {n : Nat} (hn : 0 < n) :
    Nat.toDigits 10 n ++ digits = Nat.toDigits 10 (Nat.ofDigitChars 10 digits n) := by
  induction digits generalizing n with
  | nil => exact List.append_nil _
  | cons c digits ih =>
    obtain ⟨hc, hdigits⟩ := List.forall_mem_cons.mp all
    obtain ⟨hlt, hchar⟩ := digitChar_of_isDigit hc
    have hpos : 0 < 10 * n + (c.toNat - 48) := by omega
    calc Nat.toDigits 10 n ++ c :: digits
        = (Nat.toDigits 10 n ++ Nat.toDigits 10 (c.toNat - 48)) ++ digits := by
          rw [Nat.toDigits_of_lt_base hlt, hchar, List.append_assoc]
          rfl
      _ = Nat.toDigits 10 (10 * n + (c.toNat - 48)) ++ digits := by
          rw [Nat.toDigits_append_toDigits (by decide) hn hlt]
      _ = Nat.toDigits 10 (Nat.ofDigitChars 10 digits (10 * n + (c.toNat - 48))) := ih hdigits hpos

/-- Digits are the digits of their number behind zeros. -/
theorem exists_zeros_of_digits {digits : List Char} (hne : digits ≠ [])
    (all : ∀ c ∈ digits, c.isDigit = true) :
    ∃ zeros, digits =
      List.replicate zeros '0' ++ Nat.toDigits 10 (Nat.ofDigitChars 10 digits 0) := by
  induction digits with
  | nil => exact absurd rfl hne
  | cons c digits ih =>
    obtain ⟨hc, hdigits⟩ := List.forall_mem_cons.mp all
    obtain ⟨hlt, hchar⟩ := digitChar_of_isDigit hc
    rw [Nat.ofDigitChars_cons]
    by_cases hzero : c = '0'
    · subst hzero
      by_cases hlast : digits = []
      · subst hlast
        exact ⟨0, rfl⟩
      · obtain ⟨zeros, hzeros⟩ := ih hlast hdigits
        exact ⟨zeros + 1, congrArg ('0' :: ·) hzeros⟩
    · have hpos : 0 < c.toNat - 48 := by
        apply Nat.pos_of_ne_zero
        intro hnone
        rw [hnone] at hchar
        exact hzero hchar.symm
      have hvalue : 10 * 0 + (c.toNat - '0'.toNat) = c.toNat - 48 := Nat.zero_add _
      refine ⟨0, ?_⟩
      rw [hvalue, ← toDigits_append_digits hdigits hpos, Nat.toDigits_of_lt_base hlt, hchar]
      rfl

/-! ## Numerals of words -/

theorem isDigit_of_mem_uint64Chars {n : UInt64} {c : Char} (h : c ∈ uint64Chars n) :
    c.isDigit = true :=
  Nat.isDigit_of_mem_toDigits (by decide) (by decide) h

theorem uint64Chars_ne_nil (n : UInt64) : uint64Chars n ≠ [] :=
  Nat.toDigits_ne_nil

theorem uint64Chars_injective {m n : UInt64} (h : uint64Chars m = uint64Chars n) : m = n := by
  have hvalue := congrArg (fun digits => Nat.ofDigitChars 10 digits 0) h
  simp only [uint64Chars, Nat.ofDigitChars_ten_toDigits] at hvalue
  exact UInt64.toNat_inj.mp hvalue

/-- The written forms of a word: its digits behind zeros, with a plus sign in front or none. -/
def numeral (plus : Bool) (zeros : Nat) (n : UInt64) : List Char :=
  (if plus then ['+'] else []) ++ (List.replicate zeros '0' ++ uint64Chars n)

theorem isDigit_of_mem_zeros_append {zeros : Nat} {n : UInt64} {c : Char}
    (h : c ∈ List.replicate zeros '0' ++ uint64Chars n) : c.isDigit = true := by
  rcases List.mem_append.mp h with hzero | hdigit
  · rw [List.eq_of_mem_replicate hzero]
    decide
  · exact isDigit_of_mem_uint64Chars hdigit

theorem unsignedDigits_of_digits {digits : List Char} (all : ∀ c ∈ digits, c.isDigit = true) :
    unsignedDigits digits = digits := by
  unfold unsignedDigits
  split
  · exact absurd (all '+' List.mem_cons_self) (by decide)
  · rfl

theorem unsignedDigits_numeral (plus : Bool) (zeros : Nat) (n : UInt64) :
    unsignedDigits (numeral plus zeros n) = List.replicate zeros '0' ++ uint64Chars n := by
  cases plus with
  | true => rfl
  | false => exact unsignedDigits_of_digits fun c hc => isDigit_of_mem_zeros_append hc

theorem eq_unsignedDigits (cs : List Char) :
    cs = unsignedDigits cs ∨ cs = '+' :: unsignedDigits cs := by
  unfold unsignedDigits
  split
  · exact .inr rfl
  · exact .inl rfl

theorem readUInt64?_numeral (plus : Bool) (zeros : Nat) (n : UInt64) :
    readUInt64? (numeral plus zeros n) = some n := by
  have hne : List.replicate zeros '0' ++ uint64Chars n ≠ [] :=
    List.append_ne_nil_of_right_ne_nil _ (uint64Chars_ne_nil n)
  have hall : (List.replicate zeros '0' ++ uint64Chars n).all Char.isDigit = true :=
    List.all_eq_true.mpr fun c hc => isDigit_of_mem_zeros_append hc
  have hvalue : Nat.ofDigitChars 10 (List.replicate zeros '0' ++ uint64Chars n) 0 = n.toNat := by
    rw [Nat.ofDigitChars_append, Nat.ofDigitChars_replicate_zero, Nat.mul_zero, uint64Chars,
      Nat.ofDigitChars_ten_toDigits]
  rw [readUInt64?, unsignedDigits_numeral, if_pos ⟨hne, hall⟩, hvalue, if_pos n.toNat_lt,
    UInt64.ofNat_toNat]

theorem exists_numeral_of_readUInt64? {cs : List Char} {n : UInt64}
    (h : readUInt64? cs = some n) : ∃ plus zeros, cs = numeral plus zeros n := by
  unfold readUInt64? at h
  dsimp only at h
  split at h
  · rename_i hdigits
    split at h
    · rename_i hlt
      obtain ⟨zeros, hzeros⟩ :=
        exists_zeros_of_digits hdigits.1 (List.all_eq_true.mp hdigits.2)
      have hn : Nat.ofDigitChars 10 (unsignedDigits cs) 0 = n.toNat := by
        cases h
        exact (UInt64.toNat_ofNat_of_lt' hlt).symm
      rw [hn] at hzeros
      rcases eq_unsignedDigits cs with hcs | hcs
      · exact ⟨false, zeros, hcs.trans hzeros⟩
      · exact ⟨true, zeros, hcs.trans (congrArg ('+' :: ·) hzeros)⟩
    · cases h
  · cases h

/-- The texts that a word is read off are its written forms. -/
theorem readUInt64?_eq_some_iff {cs : List Char} {n : UInt64} :
    readUInt64? cs = some n ↔ ∃ plus zeros, cs = numeral plus zeros n := by
  constructor
  · exact exists_numeral_of_readUInt64?
  · rintro ⟨plus, zeros, rfl⟩
    exact readUInt64?_numeral plus zeros n

end Text

end SpatialSegment
