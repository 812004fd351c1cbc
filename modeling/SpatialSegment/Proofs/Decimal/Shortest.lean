import SpatialSegment.Proofs.Decimal.Nearest

/-!
# The shortest decimal reads back

Whatever the search for a short decimal finds lies in the interval of the reals that round to the
number, and it always finds something: the grid of 344 places is finer than the interval of the
smallest number, so it has a point between the lower end and the number itself.
-/

namespace SpatialSegment

namespace Decimal

/-! ## The points of one grid -/

/-- The point `d` of the grid `10 ^ p` lies in the interval. -/
def Rounding.Inside (r : Rounding) (p : ℤ) (d : ℕ) : Prop :=
  if r.closed then
    r.low * 10 ^ (-p).toNat ≤ d * (r.den * 10 ^ p.toNat) ∧
      d * (r.den * 10 ^ p.toNat) ≤ r.high * 10 ^ (-p).toNat
  else
    r.low * 10 ^ (-p).toNat < d * (r.den * 10 ^ p.toNat) ∧
      d * (r.den * 10 ^ p.toNat) < r.high * 10 ^ (-p).toNat

section

variable {r : Rounding} {p : ℤ} {d : ℕ}

theorem Rounding.inside_iff :
    (if r.closed = true then
        decide (r.low * 10 ^ (-p).toNat ≤ d * (r.den * 10 ^ p.toNat) ∧
          d * (r.den * 10 ^ p.toNat) ≤ r.high * 10 ^ (-p).toNat)
      else
        decide (r.low * 10 ^ (-p).toNat < d * (r.den * 10 ^ p.toNat) ∧
          d * (r.den * 10 ^ p.toNat) < r.high * 10 ^ (-p).toNat)) = true ↔ r.Inside p d := by
  rw [Inside]
  split <;> exact decide_eq_true_iff

theorem Rounding.inside_of_lt (low : r.low * 10 ^ (-p).toNat < d * (r.den * 10 ^ p.toNat))
    (high : d * (r.den * 10 ^ p.toNat) < r.high * 10 ^ (-p).toNat) : r.Inside p d := by
  rw [Inside]
  split
  · exact ⟨low.le, high.le⟩
  · exact ⟨low, high⟩

theorem Rounding.inside_of_nearestOn (h : r.nearestOn p = some d) : r.Inside p d := by
  simp only [nearestOn, Nat.pow_eq] at h
  split at h
  · cases h
  · rename_i hdown _
    cases h
    exact inside_iff.mp hdown
  · rename_i _ hup
    cases h
    exact inside_iff.mp hup
  · rename_i hdown hup
    split at h
    · cases h
      exact inside_iff.mp hdown
    · cases h
      exact inside_iff.mp hup

/-- If the point below the number is inside, one is found. -/
theorem Rounding.exists_nearestOn
    (h : r.Inside p (r.value * 10 ^ (-p).toNat / (r.den * 10 ^ p.toNat))) :
    ∃ d, r.nearestOn p = some d := by
  have hinside := inside_iff.mpr h
  simp only [nearestOn, Nat.pow_eq]
  split
  · rename_i hdown _
    rw [hinside] at hdown
    cases hdown
  · exact ⟨_, rfl⟩
  · exact ⟨_, rfl⟩
  · split <;> exact ⟨_, rfl⟩

end

/-- What one grid contributes to the search: its point next to the number, unless that is zero. -/
def Rounding.onGrid (r : Rounding) (p : ℤ) : Option ScaledDigits :=
  match r.nearestOn p with
  | some (d + 1) => some ⟨d + 1, p⟩
  | _ => none

theorem Rounding.shortest_eq (r : Rounding) :
    r.shortest = ((List.range (r.reach + 345)).findSome? fun (i : ℕ) =>
      r.onGrid (r.reach - i)).getD ⟨0, 0⟩ := rfl

theorem Rounding.onGrid_of_nearestOn {r : Rounding} {p : ℤ} {d : ℕ} (h : r.nearestOn p = some d)
    (hd : 0 < d) : r.onGrid p = some ⟨d, p⟩ := by
  obtain ⟨d, rfl⟩ := Nat.exists_eq_add_one.mpr hd
  rw [onGrid, h]

theorem Rounding.nearestOn_of_onGrid {r : Rounding} {p : ℤ} {found : ScaledDigits}
    (h : r.onGrid p = some found) : r.nearestOn found.scale = some found.digits := by
  rw [onGrid] at h
  split at h
  · rename_i hd
    cases h
    exact hd
  · cases h

/-! ## The interval of a number -/

section

variable {m q d : ℕ} {p : ℤ}

/-- Bounds in quarters of the last bit over the common denominator. -/
theorem quarters_eq (k q : ℕ) :
    ((k * 2 ^ (q - 1076) : ℕ) : ℚ) / ((2 ^ (1076 - q) : ℕ) : ℚ) = k / 4 * unit q := by
  have hplace : (q : ℤ) - 1074 = ((q - 1076 : ℕ) : ℤ) - ((1076 - q : ℕ) : ℤ) + 2 := by omega
  have hunit : unit q = 2 ^ (q - 1076) / 2 ^ (1076 - q) * 4 := by
    rw [unit, hplace, zpow_add₀ (by norm_num), zpow_sub₀ (by norm_num), zpow_natCast, zpow_natCast]
    norm_num
  rw [hunit]
  push_cast
  field_simp

theorem low_around (split : IsSplit m q) :
    ((Rounding.around m q).low : ℚ) / (Rounding.around m q).den = (m - gapBelow m q) * unit q := by
  have hpos := split.pos
  have hlow : ((4 * m - (if m = Coord.mantissaFrom ∧ 0 < q then 1 else 2) : ℕ) : ℚ) / 4 =
      m - gapBelow m q := by
    rw [gapBelow]
    split
    · rw [Nat.cast_sub (by omega)]
      push_cast
      ring
    · rw [Nat.cast_sub (by omega)]
      push_cast
      ring
  rw [← hlow]
  exact quarters_eq _ q

theorem high_around (m q : ℕ) :
    ((Rounding.around m q).high : ℚ) / (Rounding.around m q).den = (m + 1 / 2) * unit q := by
  have hhigh : ((4 * m + 2 : ℕ) : ℚ) / 4 = m + 1 / 2 := by
    push_cast
    ring
  rw [← hhigh]
  exact quarters_eq _ q

theorem closed_around (m q : ℕ) : (Rounding.around m q).closed = decide (m % 2 = 0) := rfl

theorem den_around_pos (m q : ℕ) : 0 < (Rounding.around m q).den :=
  Nat.pow_pos (by decide)

/-- Bounds and points are compared over one common denominator. -/
theorem bound_scaled {den : ℕ} (hden : 0 < den) (bound : ℕ) (p : ℤ) :
    ((bound * 10 ^ (-p).toNat : ℕ) : ℚ) = bound / den * (den * 10 ^ (-p).toNat) := by
  have hden' : (den : ℚ) ≠ 0 := by exact_mod_cast hden.ne'
  push_cast
  field_simp

theorem point_scaled (den d : ℕ) (p : ℤ) :
    ((d * (den * 10 ^ p.toNat) : ℕ) : ℚ) = d * 10 ^ p * (den * 10 ^ (-p).toNat) := by
  have hpow : (10 : ℚ) ^ p * 10 ^ (-p).toNat = 10 ^ p.toNat := by
    rw [← zpow_natCast, ← zpow_natCast, ← zpow_add₀ (by norm_num)]
    congr 1
    omega
  push_cast
  rw [← hpow]
  ring

/-- The interval searched is that of the reals that round to the number. -/
theorem Rounding.Inside.roundsTo (h : (Rounding.around m q).Inside p d) (split : IsSplit m q) :
    RoundsTo m q (d * 10 ^ p) := by
  have hden := den_around_pos m q
  have hscale : (0 : ℚ) < (Rounding.around m q).den * 10 ^ (-p).toNat := by positivity
  rw [Inside, closed_around] at h
  simp only [← Nat.cast_le (α := ℚ), ← Nat.cast_lt (α := ℚ), bound_scaled hden, point_scaled,
    low_around split, high_around, mul_le_mul_iff_of_pos_right hscale,
    mul_lt_mul_iff_of_pos_right hscale, decide_eq_true_eq] at h
  split at h
  · rename_i heven
    exact ⟨h.1, h.2, fun hodd => absurd (heven.symm.trans hodd) (by decide)⟩
  · exact ⟨h.1.le, h.2.le, fun _ => h⟩

theorem ten_pow_large (q : ℕ) : 2 ^ (1076 - q) ≤ 10 ^ 344 := by
  calc 2 ^ (1076 - q) ≤ 2 ^ (93 * 12) := pow_le_pow_right₀ (by decide) (by omega)
    _ = (2 ^ 93) ^ 12 := pow_mul 2 93 12
    _ ≤ (10 ^ 28) ^ 12 := Nat.pow_le_pow_left (by norm_num) 12
    _ = 10 ^ (28 * 12) := (pow_mul 10 28 12).symm
    _ ≤ 10 ^ 344 := pow_le_pow_right₀ (by decide) (by decide)

theorem low_lt_value (split : IsSplit m q) :
    (Rounding.around m q).low < (Rounding.around m q).value := by
  have hpos := split.pos
  refine Nat.mul_lt_mul_of_pos_right ?_ (Nat.pow_pos (by decide))
  split <;> omega

theorem value_lt_high (m q : ℕ) : (Rounding.around m q).value < (Rounding.around m q).high :=
  Nat.mul_lt_mul_of_pos_right (by omega) (Nat.pow_pos (by decide))

/-- On a grid finer than the distance of the bounds, the point below the number is inside. -/
theorem Rounding.inside_of_fine {r : Rounding} {places : ℕ} (hden : 0 < r.den)
    (fine : r.den ≤ 10 ^ places) (low : r.low < r.value) (high : r.value < r.high) :
    r.Inside (-places) (r.value * 10 ^ (- -(places : ℤ)).toNat /
      (r.den * 10 ^ (-(places : ℤ)).toNat)) := by
  have hzoom : (- -(places : ℤ)).toNat = places := by omega
  have hwhole : (-(places : ℤ)).toNat = 0 := by omega
  have hzoom_pos : 0 < 10 ^ places := Nat.pow_pos (by decide)
  have hdiv := Nat.div_add_mod (r.value * 10 ^ places) r.den
  have hrest := Nat.mod_lt (r.value * 10 ^ places) hden
  have hlow : (r.low + 1) * 10 ^ places ≤ r.value * 10 ^ places := Nat.mul_le_mul_right _ low
  have hhigh : r.value * 10 ^ places < r.high * 10 ^ places :=
    Nat.mul_lt_mul_of_pos_right high hzoom_pos
  rw [Nat.add_mul, Nat.one_mul] at hlow
  -- The point is less than one step below the number, the lower end at least one.
  apply inside_of_lt
  · rw [hzoom, hwhole, pow_zero, mul_one, mul_comm _ r.den]
    omega
  · rw [hzoom, hwhole, pow_zero, mul_one, mul_comm _ r.den]
    omega

/-- The shortest decimal rounds to the number. -/
theorem roundsTo_shortest (split : IsSplit m q) :
    RoundsTo m q ((Rounding.around m q).shortest.digits *
      10 ^ (Rounding.around m q).shortest.scale) := by
  generalize hr : Rounding.around m q = r
  have hrounds : ∀ {d p}, r.nearestOn p = some d → RoundsTo m q (d * 10 ^ p) := by
    intro d p h
    have hinside := Rounding.inside_of_nearestOn h
    rw [← hr] at hinside
    exact hinside.roundsTo split
  obtain ⟨finest, hfinest⟩ : ∃ d, r.nearestOn (-(344 : ℕ)) = some d := by
    apply Rounding.exists_nearestOn
    rw [← hr]
    exact Rounding.inside_of_fine (den_around_pos m q) (ten_pow_large q) (low_lt_value split)
      (value_lt_high m q)
  -- The search reaches that grid unless it ends before, so it ends with a point either way.
  obtain ⟨found, hfound⟩ : ∃ found, ((List.range (r.reach + 345)).findSome? fun (i : ℕ) =>
      r.onGrid (r.reach - i)) = some found := by
    apply Option.isSome_iff_exists.mp
    refine List.findSome?_isSome_iff.mpr ⟨r.reach + 344, List.mem_range.mpr (by omega), ?_⟩
    have hgrid : (r.reach : ℤ) - (r.reach + 344 : ℕ) = -(344 : ℕ) := by omega
    rw [hgrid, Rounding.onGrid_of_nearestOn hfinest ((hrounds hfinest).digits_pos split)]
    rfl
  obtain ⟨i, -, hi⟩ := List.exists_of_findSome?_eq_some hfound
  rw [Rounding.shortest_eq, hfound, Option.getD_some]
  exact hrounds (Rounding.nearestOn_of_onGrid hi)

end

end Decimal

end SpatialSegment
