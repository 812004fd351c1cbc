import Mathlib.Algebra.Order.Field.Power
import Mathlib.Data.Rat.Cast.Order
import Mathlib.Tactic.FieldSimp
import Mathlib.Tactic.GCongr
import Mathlib.Tactic.Linarith
import Mathlib.Tactic.NormNum
import Mathlib.Tactic.Positivity
import Mathlib.Tactic.Ring
import SpatialSegment.Decimal.Shortest
import SpatialSegment.Decimal.Nearest

/-!
# Rounding to the nearest number

The numbers that round to `m * 2 ^ (q - 1074)` are those at most half a unit away, half a unit
itself only if `m` is even; below a power of two the numbers lie twice as close, and the way down is
half as far. Every quotient and every decimal in this interval is read as the code of `m` and `q`.
-/

namespace SpatialSegment

namespace Decimal

/-- The weight of the last bit of a mantissa. -/
def unit (q : ℕ) : ℚ := 2 ^ ((q : ℤ) - 1074)

theorem unit_pos (q : ℕ) : 0 < unit q := zpow_pos (by norm_num) _

theorem unit_add (q k : ℕ) : unit (q + k) = 2 ^ k * unit q := by
  rw [unit, unit, ← zpow_natCast, ← zpow_add₀ (by norm_num)]
  congr 1
  push_cast
  ring

theorem unit_le {q q' : ℕ} (h : q ≤ q') : unit q ≤ unit q' :=
  zpow_le_zpow_right₀ (by norm_num) (by omega)

/-- The mantissa and the place of the last bit of a number that is not zero. Only the numbers in the
lowest place may have a short mantissa. -/
structure IsSplit (m q : ℕ) : Prop where
  pos : 0 < m
  lt : m < 2 * Coord.mantissaFrom
  full : 0 < q → Coord.mantissaFrom ≤ m

/-- How far down from a number the interval that rounds to it goes. -/
def gapBelow (m q : ℕ) : ℚ := if m = Coord.mantissaFrom ∧ 0 < q then 1 / 4 else 1 / 2

/-- The numbers that round to the one with this mantissa and this place of the last bit. -/
structure RoundsTo (m q : ℕ) (x : ℚ) : Prop where
  low : (m - gapBelow m q) * unit q ≤ x
  high : x ≤ (m + 1 / 2) * unit q
  inner : m % 2 = 1 → (m - gapBelow m q) * unit q < x ∧ x < (m + 1 / 2) * unit q

/-! ## The place of the last bit -/

theorem two_pow_toNat {e : ℤ} (h : 0 ≤ e) : ((2 ^ e.toNat : ℕ) : ℚ) = 2 ^ e := by
  push_cast
  rw [← zpow_natCast, Int.toNat_of_nonneg h]

section

variable {num den : ℕ}

/-- The comparison of a quotient with a power of two by whole numbers. -/
theorem fits_iff (num : ℕ) (hden : 0 < den) (top : ℤ) :
    (if 0 ≤ top then decide (den * Nat.pow 2 top.toNat ≤ num)
      else decide (den ≤ num * Nat.pow 2 (-top).toNat)) = true ↔ (2 : ℚ) ^ top ≤ num / den := by
  have hden' : (0 : ℚ) < den := by exact_mod_cast hden
  rw [le_div_iff₀ hden']
  split
  · rename_i htop
    rw [decide_eq_true_iff, ← two_pow_toNat htop, mul_comm]
    exact_mod_cast Iff.rfl
  · rename_i htop
    have hpow : (2 : ℚ) ^ top = ((2 ^ (-top).toNat : ℕ) : ℚ)⁻¹ := by
      rw [two_pow_toNat (by omega), zpow_neg, inv_inv]
    rw [decide_eq_true_iff, hpow, inv_mul_le_iff₀ (by positivity), mul_comm]
    exact_mod_cast Iff.rfl

theorem div_log_bounds (hnum : 0 < num) (hden : 0 < den) :
    (2 : ℚ) ^ ((num.log2 : ℤ) - den.log2 - 1) ≤ num / den ∧
      (num : ℚ) / den < 2 ^ ((num.log2 : ℤ) - den.log2 + 1) := by
  have hden' : (0 : ℚ) < den := by exact_mod_cast hden
  have hnum_low : (2 : ℚ) ^ (num.log2 : ℤ) ≤ num := by
    exact_mod_cast Nat.log2_self_le hnum.ne'
  have hnum_high : (num : ℚ) < 2 ^ ((num.log2 : ℤ) + 1) := by
    exact_mod_cast Nat.lt_log2_self (n := num)
  have hden_low : (2 : ℚ) ^ (den.log2 : ℤ) ≤ den := by
    exact_mod_cast Nat.log2_self_le hden.ne'
  have hden_high : (den : ℚ) < 2 ^ ((den.log2 : ℤ) + 1) := by
    exact_mod_cast Nat.lt_log2_self (n := den)
  constructor
  · rw [le_div_iff₀ hden']
    calc (2 : ℚ) ^ ((num.log2 : ℤ) - den.log2 - 1) * den
        ≤ 2 ^ ((num.log2 : ℤ) - den.log2 - 1) * 2 ^ ((den.log2 : ℤ) + 1) := by gcongr
      _ = 2 ^ (num.log2 : ℤ) := by
          rw [← zpow_add₀ (by norm_num)]
          congr 1
          ring
      _ ≤ num := hnum_low
  · rw [div_lt_iff₀ hden']
    calc (num : ℚ) < 2 ^ ((num.log2 : ℤ) + 1) := hnum_high
      _ = 2 ^ ((num.log2 : ℤ) - den.log2 + 1) * 2 ^ (den.log2 : ℤ) := by
          rw [← zpow_add₀ (by norm_num)]
          congr 1
          ring
      _ ≤ 2 ^ ((num.log2 : ℤ) - den.log2 + 1) * den := by gcongr

/-- In units of the last bit a quotient has at most 53 bits, and no fewer above the lowest place. -/
theorem lastBit_bounds (hnum : 0 < num) (hden : 0 < den) :
    (num : ℚ) / den < 2 ^ 53 * unit (lastBit num den) ∧
      (0 < lastBit num den → 2 ^ 52 * unit (lastBit num den) ≤ (num : ℚ) / den) := by
  obtain ⟨hlow, hhigh⟩ := div_log_bounds hnum hden
  -- The logarithms leave two powers of two in question; the comparison decides between them.
  have hfits := fits_iff num hden ((num.log2 : ℤ) - den.log2)
  obtain ⟨e, he, hbelow, habove⟩ : ∃ e : ℤ, lastBit num den = (e + 1074).toNat ∧
      (2 : ℚ) ^ (e + 52) ≤ num / den ∧ (num : ℚ) / den < 2 ^ (e + 53) := by
    by_cases hle : (2 : ℚ) ^ ((num.log2 : ℤ) - den.log2) ≤ num / den
    · refine ⟨(num.log2 : ℤ) - den.log2 - 52, ?_, by simpa using hle, ?_⟩
      · rw [lastBit, if_pos (hfits.mpr hle)]
      · convert hhigh using 2
        ring
    · refine ⟨(num.log2 : ℤ) - den.log2 - 53, ?_, ?_, ?_⟩
      · rw [lastBit, if_neg (mt hfits.mp hle)]
      · convert hlow using 2
        ring
      · simpa using not_le.mp hle
  have hunit : unit (lastBit num den) = 2 ^ max e (-1074) := by
    rw [he, unit]
    congr 1
    omega
  rw [hunit, ← zpow_natCast, ← zpow_natCast, ← zpow_add₀ (by norm_num), ← zpow_add₀ (by norm_num)]
  refine ⟨habove.trans_le (zpow_le_zpow_right₀ (by norm_num) ?_), fun hpos => ?_⟩
  · push_cast
    omega
  · refine le_trans (zpow_le_zpow_right₀ (by norm_num) ?_) hbelow
    push_cast
    omega

/-! ## Rounding to a whole number -/

/-- The whole number next to a quotient, a half going to the even one. -/
def roundEven (num den : ℕ) : ℕ :=
  if den < 2 * (num % den) ∨ (2 * (num % den) = den ∧ num / den % 2 = 1) then num / den + 1
  else num / den

theorem roundEven_eq {k : ℕ} (hden : 0 < den) (low : 2 * k * den ≤ 2 * num + den)
    (high : 2 * num ≤ (2 * k + 1) * den)
    (inner : k % 2 = 1 → 2 * k * den < 2 * num + den ∧ 2 * num < (2 * k + 1) * den) :
    roundEven num den = k := by
  have hsum := Nat.div_add_mod num den
  have hrest := Nat.mod_lt num hden
  rw [roundEven]
  generalize num / den = floor at *
  generalize num % den = rest at *
  subst hsum
  -- The floor is `k` or the number below; which of them, and whether that is right, the rest says.
  have hle : floor ≤ k := by
    have hmul : 2 * floor * den ≤ (2 * k + 1) * den :=
      le_trans (by linarith) high
    have := Nat.le_of_mul_le_mul_right hmul hden
    omega
  have hge : k ≤ floor + 1 := by
    have hmul : 2 * k * den < (2 * floor + 3) * den := by
      refine low.trans_lt ?_
      linarith
    have := Nat.lt_of_mul_lt_mul_right hmul
    omega
  obtain rfl | rfl : k = floor ∨ k = floor + 1 := by omega
  · have hdown : 2 * rest ≤ den := by linarith
    rw [if_neg]
    rintro (hup | ⟨hhalf, hodd⟩)
    · omega
    · linarith [(inner hodd).2]
  · have hup : den ≤ 2 * rest := by linarith
    rw [if_pos]
    by_cases hhalf : 2 * rest = den
    · refine .inr ⟨hhalf, ?_⟩
      by_contra heven
      linarith [(inner (by omega)).1]
    · exact .inl (by omega)

/-- The same in fractions: at most half a unit away, and less if the number is odd. -/
theorem roundEven_of_bounds {k : ℕ} (hden : 0 < den) (low : (k : ℚ) - 1 / 2 ≤ num / den)
    (high : (num : ℚ) / den ≤ k + 1 / 2)
    (inner : k % 2 = 1 → (k : ℚ) - 1 / 2 < num / den ∧ (num : ℚ) / den < k + 1 / 2) :
    roundEven num den = k := by
  have hden' : (0 : ℚ) < den := by exact_mod_cast hden
  rw [le_div_iff₀ hden'] at low
  rw [div_le_iff₀ hden'] at high
  rw [lt_div_iff₀ hden', div_lt_iff₀ hden'] at inner
  refine roundEven_eq hden ?_ ?_ fun hodd => ?_
  · have hlow : (2 : ℚ) * k * den ≤ 2 * num + den := by linarith
    exact_mod_cast hlow
  · have hhigh : (2 : ℚ) * num ≤ (2 * k + 1) * den := by linarith
    exact_mod_cast hhigh
  · obtain ⟨hlow, hhigh⟩ := inner hodd
    have hlow : (2 : ℚ) * k * den < 2 * num + den := by linarith
    have hhigh : (2 : ℚ) * num < (2 * k + 1) * den := by linarith
    exact ⟨by exact_mod_cast hlow, by exact_mod_cast hhigh⟩

theorem nearest_eq (hnum : 0 < num) (den : ℕ) :
    nearest num den = min (lastBit num den * Coord.mantissaFrom +
      roundEven (num * 2 ^ (1074 - lastBit num den)) (den * 2 ^ (lastBit num den - 1074)))
        Coord.infiniteMagnitude := by
  rw [nearest, if_neg hnum.ne', roundEven]
  simp only [Nat.pow_eq, Bool.decide_or, Bool.decide_and, Bool.or_eq_true, Bool.and_eq_true,
    decide_eq_true_eq]

/-- What is rounded is the quotient in units of its last bit. -/
theorem scaled_eq (num den q : ℕ) :
    ((num * 2 ^ (1074 - q) : ℕ) : ℚ) / ((den * 2 ^ (q - 1074) : ℕ) : ℚ) = num / den / unit q := by
  have hplace : (q : ℤ) - 1074 = ((q - 1074 : ℕ) : ℤ) - ((1074 - q : ℕ) : ℤ) := by omega
  have hunit : unit q = 2 ^ (q - 1074) / 2 ^ (1074 - q) := by
    rw [unit, hplace, zpow_sub₀ (by norm_num), zpow_natCast, zpow_natCast]
  rw [hunit]
  push_cast
  field_simp

/-- Rounding in units of the last bit. -/
theorem roundEven_scaled {k q : ℕ} (hden : 0 < den) (low : (k - 1 / 2) * unit q ≤ (num : ℚ) / den)
    (high : (num : ℚ) / den ≤ (k + 1 / 2) * unit q)
    (inner : k % 2 = 1 → (k - 1 / 2) * unit q < (num : ℚ) / den ∧
      (num : ℚ) / den < (k + 1 / 2) * unit q) :
    roundEven (num * 2 ^ (1074 - q)) (den * 2 ^ (q - 1074)) = k := by
  have hunit := unit_pos q
  refine roundEven_of_bounds (by positivity) ?_ ?_ fun hodd => ?_
  · rwa [scaled_eq, le_div_iff₀ hunit]
  · rwa [scaled_eq, div_le_iff₀ hunit]
  · rw [scaled_eq, lt_div_iff₀ hunit, div_lt_iff₀ hunit]
    exact inner hodd

variable {m q : ℕ}

theorem gapBelow_le (m q : ℕ) : gapBelow m q ≤ 1 / 2 := by
  unfold gapBelow
  split <;> norm_num

theorem mantissaFrom_cast : (Coord.mantissaFrom : ℚ) = 2 ^ 52 := by
  norm_num [Coord.mantissaFrom]

/-- The last bit of a quotient that rounds to a number is not above that of the number. -/
theorem RoundsTo.place_le {place : ℕ} (h : RoundsTo m q (num / den)) (split : IsSplit m q)
    (habove : 0 < place → 2 ^ 52 * unit place ≤ (num : ℚ) / den) : place ≤ q := by
  by_contra hlt
  have hunit := unit_pos q
  have htwice : 2 * unit q ≤ unit place := by
    have hle : unit (q + 1) ≤ unit place := unit_le (by omega)
    rwa [unit_add, pow_one] at hle
  have hm : (m : ℚ) + 1 ≤ 2 * 2 ^ 52 := by
    rw [← mantissaFrom_cast]
    exact_mod_cast split.lt
  have hv := (habove (by omega)).trans h.high
  nlinarith

/-- A quotient that has its last bit below that of the number it rounds to is next to a power of
two. -/
theorem RoundsTo.eq_of_place_lt {place : ℕ} (h : RoundsTo m q (num / den)) (split : IsSplit m q)
    (hbelow : (num : ℚ) / den < 2 ^ 53 * unit place) (hlt : place < q) :
    q = place + 1 ∧ m = Coord.mantissaFrom := by
  have hunit := unit_pos place
  have hgap := gapBelow_le m q
  have hfull : (2 : ℚ) ^ 52 ≤ m := by
    rw [← mantissaFrom_cast]
    exact_mod_cast split.full (by omega)
  have hlow := h.low.trans_lt hbelow
  have hnext : q = place + 1 := by
    by_contra hne
    have hle : unit (place + 2) ≤ unit q := unit_le (by omega)
    rw [unit_add] at hle
    nlinarith
  refine ⟨hnext, ?_⟩
  rw [hnext, unit_add, pow_one] at hlow
  have hm : (m : ℚ) < 2 ^ 52 + 1 := by
    have hcancel : ((m - gapBelow m (place + 1)) * 2) * unit place < 2 ^ 53 * unit place := by
      linarith
    have hlt := lt_of_mul_lt_mul_right hcancel hunit.le
    rw [← hnext] at hlt
    linarith
  rw [← mantissaFrom_cast] at hm
  have hm : m < Coord.mantissaFrom + 1 := by exact_mod_cast hm
  have hfull := split.full (by omega)
  omega

/-- What rounds to a number is read as its code. Next to a power of two, where the last bit is one
place lower, the mantissa carries into the exponent. -/
theorem RoundsTo.nearest_eq (h : RoundsTo m q (num / den)) (split : IsSplit m q) (hnum : 0 < num)
    (hden : 0 < den) :
    nearest num den = min (q * Coord.mantissaFrom + m) Coord.infiniteMagnitude := by
  obtain ⟨hbelow, habove⟩ := lastBit_bounds hnum hden
  rw [Decimal.nearest_eq hnum]
  generalize lastBit num den = place at *
  rcases (h.place_le split habove).eq_or_lt with rfl | hlt
  · have hunit := unit_pos place
    have hgap := gapBelow_le m place
    have hwide : (m - 1 / 2) * unit place ≤ (m - gapBelow m place) * unit place := by gcongr
    rw [roundEven_scaled hden (hwide.trans h.low) h.high fun hodd =>
      ⟨hwide.trans_lt (h.inner hodd).1, (h.inner hodd).2⟩]
  · -- The quotient is counted in half units here, and rounds to twice the mantissa.
    obtain ⟨rfl, rfl⟩ := h.eq_of_place_lt split hbelow hlt
    have hunit := unit_pos place
    have hlow := h.low
    have hgap : gapBelow Coord.mantissaFrom (place + 1) = 1 / 4 :=
      if_pos ⟨rfl, Nat.succ_pos place⟩
    rw [hgap, unit_add, pow_one, mantissaFrom_cast] at hlow
    have htwice : ((2 * Coord.mantissaFrom : ℕ) : ℚ) = 2 ^ 53 := by
      push_cast
      rw [mantissaFrom_cast]
      norm_num
    have hrounded : roundEven (num * 2 ^ (1074 - place)) (den * 2 ^ (place - 1074)) =
        2 * Coord.mantissaFrom := by
      refine roundEven_scaled hden ?_ ?_ fun hodd => by omega
      · rw [htwice]
        linarith
      · rw [htwice]
        linarith
    have hcarry : place * Coord.mantissaFrom + 2 * Coord.mantissaFrom =
        (place + 1) * Coord.mantissaFrom + Coord.mantissaFrom := by ring
    rw [hrounded, hcarry]

end

/-! ## Decimals -/

theorem toDigits_bounds {n : ℕ} (hn : 0 < n) :
    10 ^ ((Nat.toDigits 10 n).length - 1) ≤ n ∧ n < 10 ^ (Nat.toDigits 10 n).length := by
  have hpos : 0 < (Nat.toDigits 10 n).length := Nat.length_toDigits_pos
  refine ⟨?_, (Nat.length_toDigits_le_iff (by decide) hpos).mp (Nat.le_refl _)⟩
  by_cases hone : (Nat.toDigits 10 n).length = 1
  · rw [hone]
    exact hn
  · by_contra hlt
    have hle := (Nat.length_toDigits_le_iff (b := 10) (by decide)
      (show 0 < (Nat.toDigits 10 n).length - 1 by omega)).mpr (not_le.mp hlt)
    omega

theorem two_pow_lt : (2 : ℚ) ^ 1024 < 10 ^ 309 := by
  have hstep : (2 : ℚ) ^ 93 < 10 ^ 28 := by norm_num
  calc (2 : ℚ) ^ 1024 = (2 ^ 93) ^ 11 * 2 := by
        rw [← pow_mul, ← pow_succ]
    _ < (10 ^ 28) ^ 11 * 10 := by gcongr; norm_num
    _ = 10 ^ 309 := by rw [← pow_mul, ← pow_succ]

section

variable {m q : ℕ} {x : ℚ}

theorem IsSplit.place_le (split : IsSplit m q)
    (finite : q * Coord.mantissaFrom + m < Coord.infiniteMagnitude) : q ≤ 2045 := by
  have hinfinite : Coord.infiniteMagnitude = 2047 * Coord.mantissaFrom := rfl
  by_contra hlt
  have hfull := split.full (by omega)
  have hmul := Nat.mul_le_mul_right Coord.mantissaFrom (show 2046 ≤ q by omega)
  omega

/-- What rounds to a finite number is less than the power of two behind the greatest one. -/
theorem RoundsTo.lt_two_pow (h : RoundsTo m q x) (split : IsSplit m q)
    (finite : q * Coord.mantissaFrom + m < Coord.infiniteMagnitude) : x < 2 ^ 1024 := by
  have hunit := unit_pos q
  have hle := unit_le (split.place_le finite)
  have hm : (m : ℚ) + 1 ≤ 2 * 2 ^ 52 := by
    rw [← mantissaFrom_cast]
    exact_mod_cast split.lt
  have htop : 2 ^ 53 * unit 2045 = 2 ^ 1024 := by
    rw [unit, ← zpow_natCast, ← zpow_natCast, ← zpow_add₀ (by norm_num)]
    norm_num
  calc x ≤ (m + 1 / 2) * unit q := h.high
    _ < 2 ^ 53 * unit q := by gcongr; linarith
    _ ≤ 2 ^ 53 * unit 2045 := by gcongr
    _ = 2 ^ 1024 := htop

/-- What rounds to a number that is not zero is at least half of the smallest one. -/
theorem RoundsTo.le (h : RoundsTo m q x) (split : IsSplit m q) : unit 0 / 2 ≤ x := by
  have hunit := unit_pos 0
  have hgap := gapBelow_le m q
  have hm : (1 : ℚ) ≤ m := by exact_mod_cast split.pos
  calc unit 0 / 2 = 1 / 2 * unit 0 := by ring
    _ ≤ (m - gapBelow m q) * unit 0 := by gcongr; linarith
    _ ≤ (m - gapBelow m q) * unit q := by
        have hle := unit_le (Nat.zero_le q)
        gcongr
        linarith
    _ ≤ x := h.low

theorem RoundsTo.digits_pos {digits : ℕ} {scale : ℤ} (h : RoundsTo m q (digits * 10 ^ scale))
    (split : IsSplit m q) : 0 < digits := by
  have hunit := unit_pos 0
  have hle := h.le split
  apply Nat.pos_of_ne_zero
  rintro rfl
  rw [Nat.cast_zero, zero_mul] at hle
  linarith

end

/-- The length of the digits and the scale tell how large a decimal is. -/
theorem decimal_bounds {digits : ℕ} (hpos : 0 < digits) (scale : ℤ) :
    (10 : ℚ) ^ ((Nat.toDigits 10 digits).length + scale - 1) ≤ digits * 10 ^ scale ∧
      (digits : ℚ) * 10 ^ scale < 10 ^ ((Nat.toDigits 10 digits).length + scale) := by
  obtain ⟨hlow, hhigh⟩ := toDigits_bounds hpos
  have hlength : 0 < (Nat.toDigits 10 digits).length := Nat.length_toDigits_pos
  generalize (Nat.toDigits 10 digits).length = length at *
  have hscale : (0 : ℚ) < 10 ^ scale := zpow_pos (by norm_num) _
  have hlow' : (10 : ℚ) ^ ((length - 1 : ℕ) : ℤ) ≤ digits := by
    rw [zpow_natCast]
    exact_mod_cast hlow
  have hhigh' : (digits : ℚ) < 10 ^ (length : ℤ) := by
    rw [zpow_natCast]
    exact_mod_cast hhigh
  have hfirst : (length : ℤ) + scale - 1 = ((length - 1 : ℕ) : ℤ) + scale := by omega
  rw [hfirst, zpow_add₀ (by norm_num), zpow_add₀ (by norm_num)]
  exact ⟨mul_le_mul_of_nonneg_right hlow' hscale.le, mul_lt_mul_of_pos_right hhigh' hscale⟩

theorem le_unit_zero : (10 : ℚ) ^ (-331 : ℤ) ≤ unit 0 / 2 := by
  have hstep : (2 : ℚ) ^ 51 ≤ 10 ^ 22 := by norm_num
  have hpow : (2 : ℚ) ^ 1075 ≤ 10 ^ 331 := by
    calc (2 : ℚ) ^ 1075 = 2 ^ 1024 * 2 ^ 51 := by rw [← pow_add]
      _ ≤ 10 ^ 309 * 10 ^ 22 := by gcongr; exact two_pow_lt.le
      _ = 10 ^ 331 := by rw [← pow_add]
  have hunit : unit 0 / 2 = ((2 : ℚ) ^ 1075)⁻¹ := by
    rw [unit, ← zpow_natCast, ← zpow_neg, div_eq_mul_inv, ← zpow_neg_one,
      ← zpow_add₀ (by norm_num)]
    norm_num
  rw [hunit, zpow_neg]
  exact inv_anti₀ (by positivity) (by exact_mod_cast hpow)

/-- A decimal that rounds to a finite number is read as its code. -/
theorem RoundsTo.nearestDecimal_eq {m q digits : ℕ} {scale : ℤ}
    (h : RoundsTo m q (digits * 10 ^ scale)) (split : IsSplit m q)
    (finite : q * Coord.mantissaFrom + m < Coord.infiniteMagnitude) :
    nearestDecimal digits scale = q * Coord.mantissaFrom + m := by
  have hpos := h.digits_pos split
  obtain ⟨hlow, hhigh⟩ := decimal_bounds hpos scale
  have htop : ¬ 310 < ((Nat.toDigits 10 digits).length : ℤ) + scale := by
    intro hlarge
    have hle : (10 : ℚ) ^ (309 : ℤ) ≤ 10 ^ ((Nat.toDigits 10 digits).length + scale - 1) :=
      zpow_le_zpow_right₀ (by norm_num) (by omega)
    have hbound : (2 : ℚ) ^ 1024 < 10 ^ (309 : ℤ) := by exact_mod_cast two_pow_lt
    exact absurd ((h.lt_two_pow split finite).trans hbound) (hle.trans hlow).not_gt
  have hbottom : ¬ ((Nat.toDigits 10 digits).length : ℤ) + scale < -330 := by
    intro hsmall
    have hle : (10 : ℚ) ^ ((Nat.toDigits 10 digits).length + scale) ≤ 10 ^ (-331 : ℤ) :=
      zpow_le_zpow_right₀ (by norm_num) (by omega)
    exact absurd (hhigh.trans_le hle) (le_unit_zero.trans (h.le split)).not_gt
  simp only [nearestDecimal, if_neg hpos.ne', if_neg htop, if_neg hbottom, Nat.pow_eq]
  rw [← Nat.min_eq_left finite.le]
  split
  · rename_i hscale
    refine RoundsTo.nearest_eq ?_ split (by positivity) Nat.one_pos
    have hvalue : ((digits * 10 ^ scale.toNat : ℕ) : ℚ) / (1 : ℕ) = digits * 10 ^ scale := by
      push_cast
      rw [div_one, ← zpow_natCast, Int.toNat_of_nonneg hscale]
    rwa [hvalue]
  · rename_i hscale
    refine RoundsTo.nearest_eq ?_ split hpos (by positivity)
    have hvalue : (digits : ℚ) / ((10 ^ (-scale).toNat : ℕ) : ℚ) = digits * 10 ^ scale := by
      push_cast
      rw [← zpow_natCast, Int.toNat_of_nonneg (by omega), zpow_neg, div_inv_eq_mul]
    rwa [hvalue]

end Decimal

end SpatialSegment
