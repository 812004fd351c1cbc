import SpatialSegment.Box.Text
import SpatialSegment.Proofs.Box.Stored
import SpatialSegment.Proofs.Coord.Text

/-!
# A box is read back from its text

The text of a number holds none of the marks that cut the text of a box, so the cuts fall where the
pieces were joined: the outer brackets, the colons between the intervals, their brackets and the
comma between two ends. What remains are the texts of the ends, which are read back bit by bit.
-/

namespace SpatialSegment

theorem Decimal.notBlank_of_isNumeric {c : Char} (h : isNumeric c = true) :
    Text.isBlank c = false := by
  have hmarks : ['-', '.', 'e', 'i', 'n', 'f'].all (fun mark => !Text.isBlank mark) = true := by
    decide
  rw [isNumeric, Bool.or_eq_true] at h
  rcases h with hdigit | hmark
  · obtain ⟨hlow, hhigh⟩ := Char.isDigit_iff_toNat.mp hdigit
    have hzero : '0'.toNat = 48 := rfl
    have hnine : '9'.toNat = 57 := rfl
    apply Bool.eq_false_iff.mpr
    intro hblank
    simp only [Text.isBlank, Bool.or_eq_true, Bool.and_eq_true, decide_eq_true_eq,
      beq_iff_eq] at hblank
    omega
  · have hc := List.all_eq_true.mp hmarks c (List.contains_iff_mem.mp hmark)
    rwa [Bool.not_eq_true'] at hc

namespace Coord

variable {c : Coord}

theorem trim_chars (h : c.isNaN = false) : Text.trim c.chars = c.chars :=
  Text.trim_of_notBlank fun d hd => Decimal.notBlank_of_isNumeric (c.isNumeric_chars h d hd)

/-- A mark that is in no number is in the text of none. -/
theorem notMem_chars (h : c.isNaN = false) {mark : Char} (hmark : Decimal.isNumeric mark = false) :
    mark ∉ c.chars := fun hmem =>
  absurd ((isNumeric_chars h mark hmem).symm.trans hmark) (by decide)

end Coord

namespace Box

theorem inBrackets?_brackets (inner : List Char) :
    inBrackets? ('[' :: inner ++ [']']) = some inner := by
  rw [List.cons_append, inBrackets?, if_pos List.getLast?_concat, List.dropLast_concat]

theorem atComma?_append {front : List Char} (h : ',' ∉ front) (behind : List Char) :
    atComma? (front ++ ',' :: behind) = some (front, behind) := by
  have hfront : ∀ c ∈ front, decide (c ≠ ',') = true := by
    intro c hc
    exact decide_eq_true fun heq => h (heq ▸ hc)
  have hrest : ∀ c ∈ (',' :: behind).head?, decide (c ≠ ',') = false := by
    rintro c ⟨⟩
    rfl
  rw [atComma?, Text.takeWhile_append hfront hrest, Text.dropWhile_append hfront hrest]

theorem readEnds_intervalChars (i : Interval) : readEnds (intervalChars i) = some [i.lo, i.hi] := by
  have hcomma : ',' ∉ i.lo.chars := Coord.notMem_chars i.lo_isNaN rfl
  have hbrackets : intervalChars i = '[' :: (i.lo.chars ++ ',' :: i.hi.chars) ++ [']'] := rfl
  rw [readEnds, hbrackets, inBrackets?_brackets]
  simp only [Option.bind_eq_bind, Option.bind_some, atComma?_append hcomma,
    Coord.trim_chars i.lo_isNaN, Coord.trim_chars i.hi_isNaN, Coord.read?_chars i.lo_isNaN,
    Coord.read?_chars i.hi_isNaN]

theorem colon_notMem_intervalChars (i : Interval) : ':' ∉ intervalChars i := by
  have hlo : ':' ∉ i.lo.chars := Coord.notMem_chars i.lo_isNaN rfl
  have hhi : ':' ∉ i.hi.chars := Coord.notMem_chars i.hi_isNaN rfl
  simp [intervalChars, hlo, hhi]

theorem mapM_readEnds (is : List Interval) :
    (is.map intervalChars).mapM readEnds = some (is.map fun i => [i.lo, i.hi]) := by
  induction is with
  | nil => rfl
  | cons i is ih =>
    rw [List.map_cons, List.mapM_cons, readEnds_intervalChars, ih]
    rfl

/-- The parts between the colons are the texts of the intervals. -/
theorem splitOn_intervals {is : List Interval} (hne : is ≠ []) :
    Text.splitOn ':' (Text.separated ':' (is.map intervalChars)) = is.map intervalChars := by
  apply Text.splitOn_separated (mt List.map_eq_nil_iff.mp hne)
  intro piece hpiece
  obtain ⟨i, -, rfl⟩ := List.mem_map.mp hpiece
  exact colon_notMem_intervalChars i

theorem separated_intervals_ne_nil {is : List Interval} (hne : is ≠ []) :
    Text.separated ':' (is.map intervalChars) ≠ [] := by
  obtain ⟨i, is, rfl⟩ := List.exists_cons_of_ne_nil hne
  cases is <;> exact List.cons_ne_nil _ _

theorem readCoords_chars (b : Box) {front back : List Char}
    (hfront : ∀ c ∈ front, Text.isBlank c = true) (hback : ∀ c ∈ back, Text.isBlank c = true) :
    readCoords (front ++ b.chars ++ back) = some b.coords := by
  obtain ⟨is⟩ := b
  have hhead : ∀ c ∈ (Box.mk is).chars.head?, Text.isBlank c = false := by
    rintro c ⟨⟩
    decide
  have hlast : ∀ c ∈ (Box.mk is).chars.getLast?, Text.isBlank c = false := by
    intro c hc
    rw [chars, List.getLast?_concat] at hc
    cases hc
    decide
  rw [readCoords, Text.trim_append hfront hback hhead hlast, chars, inBrackets?_brackets,
    Option.bind_eq_bind, Option.bind_some]
  by_cases hne : is = []
  · subst hne
    rfl
  · rw [if_neg (separated_intervals_ne_nil hne), splitOn_intervals hne, mapM_readEnds]
    rw [coords, List.flatMap]
    rfl

/-- The text of a box between any blanks is read as the box. -/
theorem ofText_blanks_text_blanks (b : Box) (front back : String)
    (hfront : front.toList.all Text.isBlank = true) (hback : back.toList.all Text.isBlank = true) :
    ofText (front ++ b.text ++ back) = .ok b := by
  have hcoords := readCoords_chars b (List.all_eq_true.mp hfront) (List.all_eq_true.mp hback)
  rw [ofText, String.toList_append, String.toList_append, text, String.toList_ofList, hcoords]
  exact ofCoords_coords b

/-- A box with infinite ends and the negative zero. -/
theorem ofText_blanks_text_blanks_unbounded :
    let b : Box := ⟨[⟨⟨0xfff0000000000000⟩, ⟨0x8000000000000000⟩, by decide⟩,
      ⟨⟨0x0000000000000001⟩, ⟨0x7ff0000000000000⟩, by decide⟩]⟩
    " \t".toList.all Text.isBlank = true ∧ "\u3000\n".toList.all Text.isBlank = true ∧
      ofText (" \t" ++ b.text ++ "\u3000\n") = .ok b :=
  ⟨by decide, by decide, ofText_blanks_text_blanks _ " \t" "\u3000\n" (by decide) (by decide)⟩

example : text ⟨[⟨⟨0xfff0000000000000⟩, ⟨0x8000000000000000⟩, by decide⟩,
    ⟨⟨0x0000000000000001⟩, ⟨0x7ff0000000000000⟩, by decide⟩]⟩ = "[[-inf,-0.0]:[5e-324,inf]]" := by
  decide +kernel

end Box

end SpatialSegment
