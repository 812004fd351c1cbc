import SpatialSegment.Coord.Text
import SpatialSegment.Proofs.Decimal.Shortest
import SpatialSegment.Proofs.Text.Numerals
import SpatialSegment.Proofs.Text.Split

/-!
# A coordinate is read back from its text

Both forms of a number are digits with a point among them or none and an exponent behind them or
none, and are read as the code nearest to the decimal they spell. The decimal written for a number
rounds to it, so that code is its own; sign, zeros and infinities have no digits to lose. The text
of a number has neither blanks nor marks that could end it.
-/

namespace SpatialSegment

namespace Decimal

/-! ## Decimals in writing -/

/-- Digits before the point, those behind it if there is one, and the exponent if there is one. -/
structure Spelling where
  whole : List Char
  places : Option (List Char)
  exponent : Option ℤ
  whole_ne_nil : whole ≠ []
  isDigit : ∀ c ∈ whole ++ places.getD [], c.isDigit = true

namespace Spelling

def pointChars : Option (List Char) → List Char
  | none => []
  | some places => '.' :: places

def exponentChars : Option ℤ → List Char
  | none => []
  | some e => 'e' :: (toString e).toList

def chars (s : Spelling) : List Char :=
  s.whole ++ (pointChars s.places ++ exponentChars s.exponent)

/-- The digits without the point. -/
def digits (s : Spelling) : ℕ :=
  Nat.ofDigitChars 10 (s.whole ++ s.places.getD []) 0

def scale (s : Spelling) : ℤ :=
  s.exponent.getD 0 - (s.places.getD []).length

def value (s : Spelling) : ℚ :=
  s.digits * 10 ^ s.scale

end Spelling

theorem toList_toString_int (e : ℤ) :
    (toString e).toList =
      if e < 0 then '-' :: Nat.toDigits 10 e.natAbs else Nat.toDigits 10 e.natAbs := by
  rw [Int.toString_eq_repr]
  cases e with
  | ofNat n =>
    rw [if_neg (show ¬ Int.ofNat n < 0 from (Int.natCast_nonneg n).not_gt)]
    exact Nat.toList_repr
  | negSucc n =>
    rw [if_pos (Int.negSucc_lt_zero n), Int.repr, String.toList_append, Nat.toList_repr]
    rfl

theorem isDigit_toDigits (n : ℕ) : ∀ c ∈ Nat.toDigits 10 n, c.isDigit = true :=
  fun _ hc => Nat.isDigit_of_mem_toDigits (by decide) (by decide) hc

theorem readSign_of_isDigit {d : Char} (h : d.isDigit = true) (cs : List Char) :
    Coord.readSign (d :: cs) = (false, d :: cs) := by
  unfold Coord.readSign
  split
  · rename_i hminus
    cases hminus
    exact absurd h (by decide)
  · rename_i hplus
    cases hplus
    exact absurd h (by decide)
  · rfl

theorem readSign_toString (e : ℤ) :
    Coord.readSign (toString e).toList = (decide (e < 0), Nat.toDigits 10 e.natAbs) := by
  rw [toList_toString_int]
  by_cases hneg : e < 0
  · rw [if_pos hneg, decide_eq_true hneg]
    rfl
  · obtain ⟨d, ds, hds⟩ := List.exists_cons_of_ne_nil (Nat.toDigits_ne_nil (n := e.natAbs))
    have hd := isDigit_toDigits e.natAbs d (hds ▸ List.mem_cons_self)
    rw [if_neg hneg, decide_eq_false hneg, hds, readSign_of_isDigit hd]

theorem readExponent_exponentChars (e : Option ℤ) :
    Coord.readExponent (Spelling.exponentChars e) = some (e.getD 0) := by
  cases e with
  | none => rfl
  | some e =>
    have hall : (Nat.toDigits 10 e.natAbs).all Char.isDigit = true :=
      List.all_eq_true.mpr (isDigit_toDigits e.natAbs)
    simp only [Spelling.exponentChars, Coord.readExponent, readSign_toString]
    rw [if_pos ⟨.inl trivial, Nat.toDigits_ne_nil, hall⟩, Nat.ofDigitChars_ten_toDigits]
    split
    · rename_i hneg
      have hlt := of_decide_eq_true hneg
      rw [Option.getD_some, Option.some.injEq]
      omega
    · rename_i hnonneg
      have hge := of_decide_eq_false (Bool.not_eq_true _ ▸ hnonneg)
      rw [Option.getD_some, Option.some.injEq]
      omega

theorem head_exponentChars (e : Option ℤ) :
    ∀ c ∈ (Spelling.exponentChars e).head?, c.isDigit = false := by
  cases e with
  | none => exact fun _ hc => nomatch hc
  | some e =>
    rintro c ⟨⟩
    decide

theorem Spelling.readDecimal_chars (s : Spelling) :
    Coord.readDecimal s.chars = some (nearestDecimal s.digits s.scale) := by
  obtain ⟨whole, places, exponent, hne, hdigits⟩ := s
  obtain ⟨hwhole, hplaces⟩ := List.forall_mem_append.mp hdigits
  have hexponent := head_exponentChars exponent
  have hread := readExponent_exponentChars exponent
  cases places with
  | none =>
    have htake := Text.takeWhile_append hwhole hexponent
    have hdrop := Text.dropWhile_append hwhole hexponent
    simp only [chars, Coord.readDecimal, pointChars, List.nil_append, htake, hdrop]
    split
    · rename_i hpoint
      cases exponent <;> cases hpoint
    · rw [if_neg fun h => hne h.1]
      simp only [hread]
      rfl
  | some places =>
    have hpoint : ∀ c ∈ ('.' :: (places ++ exponentChars exponent)).head?, c.isDigit = false := by
      rintro c ⟨⟩
      decide
    have htake := Text.takeWhile_append hwhole hpoint
    have hdrop := Text.dropWhile_append hwhole hpoint
    have htake' := Text.takeWhile_append hplaces hexponent
    have hdrop' := Text.dropWhile_append hplaces hexponent
    rw [Option.getD_some] at htake' hdrop'
    simp only [chars, Coord.readDecimal, pointChars, List.cons_append, htake, hdrop, htake', hdrop',
      hread]
    rw [if_neg fun h => hne h.1]
    rfl

/-! ## Both forms of a number -/

section

variable {digits : List Char}

theorem isDigit_zeros (n : ℕ) : ∀ c ∈ List.replicate n '0', c.isDigit = true := by
  intro c hc
  rw [List.eq_of_mem_replicate hc]
  decide

/-- Zeros behind the digits, and one more place. -/
theorem exists_whole (hne : digits ≠ []) (hdigits : ∀ c ∈ digits, c.isDigit = true) (n : ℕ) :
    ∃ s : Spelling, s.chars = digits ++ List.replicate n '0' ++ ['.', '0'] ∧
      s.value = Nat.ofDigitChars 10 digits 0 * 10 ^ (n : ℤ) := by
  refine ⟨⟨digits ++ List.replicate n '0', some ['0'], none,
    List.append_ne_nil_of_left_ne_nil hne _, List.forall_mem_append.mpr
      ⟨List.forall_mem_append.mpr ⟨hdigits, isDigit_zeros n⟩, isDigit_zeros 1⟩⟩, rfl, ?_⟩
  have hlast : ∀ k, Nat.ofDigitChars 10 ['0'] k = 10 ^ 1 * k := fun _ =>
    Nat.ofDigitChars_replicate_zero (n := 1)
  simp only [Spelling.value, Spelling.digits, Spelling.scale, Option.getD_some, Option.getD_none,
    Nat.ofDigitChars_append, Nat.ofDigitChars_replicate_zero, hlast]
  push_cast
  norm_num
  ring

/-- The point among the digits. -/
theorem exists_cut (hdigits : ∀ c ∈ digits, c.isDigit = true) {n : ℕ} (hn : n < digits.length) :
    ∃ s : Spelling,
      s.chars = digits.take (digits.length - n) ++ '.' :: digits.drop (digits.length - n) ∧
      s.value = Nat.ofDigitChars 10 digits 0 * 10 ^ (-(n : ℤ)) := by
  have hsum := List.take_append_drop (digits.length - n) digits
  have hne : digits.take (digits.length - n) ≠ [] := by
    apply List.ne_nil_of_length_pos
    rw [List.length_take]
    omega
  have hplaces : (digits.drop (digits.length - n)).length = n := by
    rw [List.length_drop]
    omega
  refine ⟨⟨_, some (digits.drop (digits.length - n)), none, hne, ?_⟩, ?_, ?_⟩
  · rwa [Option.getD_some, hsum]
  · simp only [Spelling.chars, Spelling.pointChars, Spelling.exponentChars, List.append_nil]
  · simp only [Spelling.value, Spelling.digits, Spelling.scale, Option.getD_some,
      Option.getD_none, hsum, hplaces, zero_sub]

/-- The point before all digits, and zeros between. -/
theorem exists_fraction (hdigits : ∀ c ∈ digits, c.isDigit = true) {n : ℕ}
    (hn : digits.length ≤ n) :
    ∃ s : Spelling,
      s.chars = ['0', '.'] ++ List.replicate (n - digits.length) '0' ++ digits ∧
      s.value = Nat.ofDigitChars 10 digits 0 * 10 ^ (-(n : ℤ)) := by
  have hplaces : (List.replicate (n - digits.length) '0' ++ digits).length = n := by
    rw [List.length_append, List.length_replicate]
    omega
  have hall := List.forall_mem_append.mpr ⟨isDigit_zeros (n - digits.length), hdigits⟩
  refine ⟨⟨['0'], some (List.replicate (n - digits.length) '0' ++ digits), none,
    List.cons_ne_nil _ _, List.forall_mem_append.mpr ⟨isDigit_zeros 1, hall⟩⟩, ?_, ?_⟩
  · simp only [Spelling.chars, Spelling.pointChars, Spelling.exponentChars, List.append_nil]
    rfl
  · have hvalue : Nat.ofDigitChars 10 (['0'] ++ (List.replicate (n - digits.length) '0' ++ digits))
        0 = Nat.ofDigitChars 10 digits 0 := by
      have hfront : Nat.ofDigitChars 10 ['0'] 0 = 0 := rfl
      rw [Nat.ofDigitChars_append, Nat.ofDigitChars_append, Nat.ofDigitChars_replicate_zero,
        hfront, Nat.mul_zero]
    simp only [Spelling.value, Spelling.digits, Spelling.scale, Option.getD_some,
      Option.getD_none, hvalue, hplaces, zero_sub]

theorem exists_positional (hne : digits ≠ []) (hdigits : ∀ c ∈ digits, c.isDigit = true)
    (scale : ℤ) : ∃ s : Spelling, s.chars = positional digits scale ∧
      s.value = Nat.ofDigitChars 10 digits 0 * 10 ^ scale := by
  rw [positional]
  by_cases hscale : 0 ≤ scale
  · obtain ⟨n, rfl⟩ := Int.eq_ofNat_of_zero_le hscale
    rw [if_pos hscale]
    exact exists_whole hne hdigits n
  · obtain ⟨n, rfl⟩ : ∃ n : ℕ, scale = -n := ⟨(-scale).toNat, by omega⟩
    have hplaces : (- -(n : ℤ)).toNat = n := by omega
    rw [if_neg hscale]
    dsimp only
    rw [hplaces]
    by_cases hn : n < digits.length
    · rw [if_pos hn]
      exact exists_cut hdigits hn
    · rw [if_neg hn]
      exact exists_fraction hdigits (Nat.not_lt.mp hn)

theorem exists_exponential (hne : digits ≠ []) (hdigits : ∀ c ∈ digits, c.isDigit = true)
    (scale : ℤ) : ∃ s : Spelling, s.chars = exponential digits scale ∧
      s.value = Nat.ofDigitChars 10 digits 0 * 10 ^ scale := by
  match digits, hne with
  | [d], _ =>
    refine ⟨⟨[d], none, some (scale + 1 - 1), List.cons_ne_nil _ _, by simpa using hdigits⟩, rfl,
      ?_⟩
    simp [Spelling.value, Spelling.digits, Spelling.scale]
  | d :: d' :: more, _ =>
    refine ⟨⟨[d], some (d' :: more), some (scale + (d :: d' :: more).length - 1),
      List.cons_ne_nil _ _, hdigits⟩, rfl, ?_⟩
    have hscale : scale + (d :: d' :: more).length - 1 - (d' :: more).length = scale := by
      rw [List.length_cons]
      push_cast
      ring
    simp only [Spelling.value, Spelling.digits, Spelling.scale, Option.getD_some, hscale,
      List.singleton_append]

end

/-- The decimal is written in either form, whichever is asked for. -/
theorem exists_form (digits : ℕ) (scale : ℤ) (short : Prop) [Decidable short] :
    ∃ s : Spelling, s.chars =
      (if short then positional (Nat.toDigits 10 digits) scale
        else exponential (Nat.toDigits 10 digits) scale) ∧
      s.value = digits * 10 ^ scale := by
  have hvalue : Nat.ofDigitChars 10 (Nat.toDigits 10 digits) 0 = digits :=
    Nat.ofDigitChars_ten_toDigits
  split
  · have hform := exists_positional Nat.toDigits_ne_nil (isDigit_toDigits digits) scale
    rwa [hvalue] at hform
  · have hform := exists_exponential Nat.toDigits_ne_nil (isDigit_toDigits digits) scale
    rwa [hvalue] at hform

/-! ## The characters of a decimal -/

/-- The characters that numbers are made of. -/
def isNumeric (c : Char) : Bool :=
  c.isDigit || ['-', '.', 'e', 'i', 'n', 'f'].contains c

theorem isNumeric_of_isDigit {c : Char} (h : c.isDigit = true) : isNumeric c = true := by
  rw [isNumeric, h, Bool.true_or]

theorem isNumeric_toString (e : ℤ) : ∀ c ∈ (toString e).toList, isNumeric c = true := by
  have hdigits : ∀ c ∈ Nat.toDigits 10 e.natAbs, isNumeric c = true := fun c hc =>
    isNumeric_of_isDigit (isDigit_toDigits e.natAbs c hc)
  rw [toList_toString_int]
  split
  · exact List.forall_mem_cons.mpr ⟨rfl, hdigits⟩
  · exact hdigits

theorem Spelling.isNumeric_chars (s : Spelling) : ∀ c ∈ s.chars, isNumeric c = true := by
  obtain ⟨whole, places, exponent, hne, hdigits⟩ := s
  obtain ⟨hwhole, hplaces⟩ := List.forall_mem_append.mp hdigits
  refine List.forall_mem_append.mpr ⟨fun c hc => isNumeric_of_isDigit (hwhole c hc),
    List.forall_mem_append.mpr ⟨?_, ?_⟩⟩
  · cases places with
    | none => exact List.forall_mem_nil _
    | some places =>
      exact List.forall_mem_cons.mpr ⟨rfl, fun c hc => isNumeric_of_isDigit (hplaces c hc)⟩
  · cases exponent with
    | none => exact List.forall_mem_nil _
    | some e => exact List.forall_mem_cons.mpr ⟨rfl, isNumeric_toString e⟩

theorem Spelling.exists_head (s : Spelling) : ∃ d cs, s.chars = d :: cs ∧ d.isDigit = true := by
  obtain ⟨d, whole, hwhole⟩ := List.exists_cons_of_ne_nil s.whole_ne_nil
  refine ⟨d, whole ++ (pointChars s.places ++ exponentChars s.exponent), ?_, ?_⟩
  · rw [chars, hwhole, List.cons_append]
  · apply s.isDigit
    rw [hwhole]
    exact List.mem_cons_self

end Decimal

namespace Coord

variable {c : Coord}

theorem split_spec (hpos : 0 < c.magnitude) :
    Decimal.IsSplit c.split.1 c.split.2 ∧
      c.split.2 * mantissaFrom + c.split.1 = c.magnitude := by
  have hdiv := Nat.div_add_mod c.magnitude mantissaFrom
  have hrest := Nat.mod_lt c.magnitude (show 0 < mantissaFrom by decide)
  rw [split]
  generalize c.magnitude / mantissaFrom = exponent at *
  generalize c.magnitude % mantissaFrom = fraction at *
  split
  · rename_i hzero
    subst hzero
    exact ⟨⟨by omega, by omega, by omega⟩, by omega⟩
  · rename_i hnormal
    obtain ⟨q, rfl⟩ := Nat.exists_eq_add_one.mpr (Nat.pos_of_ne_zero hnormal)
    rw [Nat.mul_add, Nat.mul_one] at hdiv
    rw [Nat.add_sub_cancel, Nat.mul_comm q]
    exact ⟨⟨by omega, by omega, by omega⟩, by omega⟩

theorem ofMagnitude_magnitude (c : Coord) : ofMagnitude c.negative c.magnitude = c := by
  have := c.bits.toNat_lt
  have hcode : (if c.negative then signBit + c.magnitude else c.magnitude) = c.bits.toNat := by
    rw [negative, magnitude]
    split
    · rename_i hnegative
      have hle := of_decide_eq_true hnegative
      simp only [signBit] at *
      omega
    · rename_i hpositive
      have hgt := of_decide_eq_false (Bool.not_eq_true _ ▸ hpositive)
      simp only [signBit] at *
      omega
  rw [ofMagnitude, hcode, UInt64.ofNat_toNat]

/-- The text of a magnitude spells a decimal that is read as its code, unless it is infinite. -/
theorem magnitudeChars_cases (h : c.isNaN = false) :
    (c.magnitude = infiniteMagnitude ∧ c.magnitudeChars = ['i', 'n', 'f']) ∨
      ∃ s : Decimal.Spelling, c.magnitudeChars = s.chars ∧
        Decimal.nearestDecimal s.digits s.scale = c.magnitude := by
  have hle : c.magnitude ≤ infiniteMagnitude := Nat.not_lt.mp (of_decide_eq_false h)
  rw [magnitudeChars]
  by_cases hzero : c.magnitude = 0
  · rw [if_pos hzero, hzero]
    exact .inr ⟨⟨['0'], some ['0'], none, List.cons_ne_nil _ _, Decimal.isDigit_zeros 2⟩, rfl, rfl⟩
  rw [if_neg hzero]
  by_cases hinfinite : c.magnitude = infiniteMagnitude
  · rw [if_pos hinfinite]
    exact .inl ⟨hinfinite, rfl⟩
  obtain ⟨split, hcode⟩ := split_spec (Nat.pos_of_ne_zero hzero)
  have hlt : c.split.2 * mantissaFrom + c.split.1 < infiniteMagnitude :=
    hcode ▸ lt_of_le_of_ne hle hinfinite
  have hrounds := Decimal.roundsTo_shortest split
  rw [if_neg hinfinite]
  dsimp only
  obtain ⟨s, hchars, hvalue⟩ := Decimal.exists_form
    (Decimal.Rounding.around c.split.1 c.split.2).shortest.digits
    (Decimal.Rounding.around c.split.1 c.split.2).shortest.scale
    (positionalFrom ≤ c.magnitude ∧ c.magnitude < positionalBelow)
  rw [← hvalue] at hrounds
  refine .inr ⟨s, hchars.symm, ?_⟩
  rw [hrounds.nearestDecimal_eq split hlt, hcode]

/-! ## The sign and the words -/

def signChars (negative : Bool) : List Char :=
  if negative then ['-'] else []

theorem chars_of_number (h : c.isNaN = false) :
    c.chars = signChars c.negative ++ c.magnitudeChars := by
  rw [chars, if_neg (Bool.eq_false_iff.mp h), signChars]
  split <;> rfl

theorem toLower_of_isDigit {d : Char} (h : d.isDigit = true) : d.toLower = d := by
  have hdigit : ∀ k < 10, (Nat.digitChar k).toLower = Nat.digitChar k := by decide
  obtain ⟨hlt, hchar⟩ := Text.digitChar_of_isDigit h
  rw [← hchar]
  exact hdigit _ hlt

/-- A decimal behind a sign or none is read, since its first digit tells it from the words. -/
theorem read?_of_spelling (s : Decimal.Spelling) (negative : Bool) :
    read? (signChars negative ++ s.chars) =
      some (ofMagnitude negative (Decimal.nearestDecimal s.digits s.scale)) := by
  obtain ⟨d, cs, hhead, hd⟩ := s.exists_head
  have hsign : readSign (signChars negative ++ s.chars) = (negative, s.chars) := by
    cases negative with
    | true => rfl
    | false =>
      rw [hhead]
      exact Decimal.readSign_of_isDigit hd cs
  have hword : ∀ first word, first.isDigit = false → s.chars.map Char.toLower ≠ first :: word := by
    intro first word hfirst hmap
    rw [hhead, List.map_cons, toLower_of_isDigit hd] at hmap
    cases hmap
    exact absurd (hd.symm.trans hfirst) (by decide)
  simp only [read?, hsign]
  rw [if_neg fun h => h.elim (hword 'i' _ rfl) (hword 'i' _ rfl), if_neg (hword 'n' _ rfl),
    s.readDecimal_chars]
  rfl

theorem read?_infinite (negative : Bool) :
    read? (signChars negative ++ ['i', 'n', 'f']) =
      some (ofMagnitude negative infiniteMagnitude) := by
  cases negative <;> rfl

/-- The text of a number is read as that number. -/
theorem read?_chars (h : c.isNaN = false) : read? c.chars = some c := by
  have hcode := ofMagnitude_magnitude c
  rw [chars_of_number h]
  rcases magnitudeChars_cases h with ⟨hinfinite, hchars⟩ | ⟨s, hchars, hnearest⟩
  · rw [hchars, read?_infinite, ← hinfinite, hcode]
  · rw [hchars, read?_of_spelling, hnearest, hcode]

theorem isNumeric_chars (h : c.isNaN = false) : ∀ d ∈ c.chars, Decimal.isNumeric d = true := by
  have hsign : ∀ d ∈ signChars c.negative, Decimal.isNumeric d = true := by
    cases c.negative with
    | true => exact List.all_eq_true.mp (by decide)
    | false => exact List.forall_mem_nil _
  rw [chars_of_number h]
  refine List.forall_mem_append.mpr ⟨hsign, ?_⟩
  rcases magnitudeChars_cases h with ⟨-, hchars⟩ | ⟨s, hchars, -⟩
  · rw [hchars]
    exact List.all_eq_true.mp (by decide)
  · rw [hchars]
    exact s.isNumeric_chars

end Coord

end SpatialSegment
