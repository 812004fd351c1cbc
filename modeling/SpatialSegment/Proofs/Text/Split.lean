import Mathlib.Data.List.TakeWhile
import SpatialSegment.Text.Blank
import SpatialSegment.Text.Split

/-!
# Cutting texts

A text is cut where a kind of character ends, at a separator, or next to the blanks at its ends.
Each cut gives back the pieces the text was put together from, as long as the pieces have no
character of the kind that is looked for where it would be mistaken for the cut.
-/

namespace SpatialSegment

namespace Text

/-! ## Where a kind of character ends -/

section

variable {kind : Char → Bool} {front rest : List Char}

theorem takeWhile_append (hfront : ∀ c ∈ front, kind c = true)
    (hrest : ∀ c ∈ rest.head?, kind c = false) : (front ++ rest).takeWhile kind = front := by
  rw [List.takeWhile_append_of_pos hfront]
  cases rest with
  | nil => exact List.append_nil front
  | cons c cs =>
    rw [List.takeWhile_cons_of_neg (Bool.eq_false_iff.mp (hrest c rfl)), List.append_nil]

theorem dropWhile_append (hfront : ∀ c ∈ front, kind c = true)
    (hrest : ∀ c ∈ rest.head?, kind c = false) : (front ++ rest).dropWhile kind = rest := by
  rw [List.dropWhile_append_of_pos hfront]
  cases rest with
  | nil => rfl
  | cons c cs => rw [List.dropWhile_cons_of_neg (Bool.eq_false_iff.mp (hrest c rfl))]

end

/-! ## Separators -/

section

variable {separator : Char}

theorem splitOn_ne_nil (cs : List Char) : splitOn separator cs ≠ [] := by
  cases cs with
  | nil => exact List.cons_ne_nil _ _
  | cons c cs =>
    rw [splitOn]
    by_cases hc : c = separator
    · rw [if_pos hc]
      exact List.cons_ne_nil _ _
    · rw [if_neg hc]
      split <;> exact List.cons_ne_nil _ _

theorem splitOn_of_notMem {cs : List Char} (h : separator ∉ cs) : splitOn separator cs = [cs] := by
  induction cs with
  | nil => rfl
  | cons c cs ih =>
    have hc : c ≠ separator := fun heq => h (heq ▸ List.mem_cons_self)
    rw [splitOn, if_neg hc, ih fun hmem => h (List.mem_cons_of_mem _ hmem)]

theorem splitOn_append (cs ds : List Char) :
    splitOn separator (cs ++ separator :: ds) = splitOn separator cs ++ splitOn separator ds := by
  induction cs with
  | nil => simp [splitOn]
  | cons c cs ih =>
    rw [List.cons_append, splitOn, splitOn, ih]
    by_cases hc : c = separator
    · rw [if_pos hc, if_pos hc, List.cons_append]
    · rw [if_neg hc, if_neg hc]
      cases hsplit : splitOn separator cs with
      | nil => exact absurd hsplit (splitOn_ne_nil cs)
      | cons part parts => rfl

theorem splitOn_separated {pieces : List (List Char)} (hne : pieces ≠ [])
    (h : ∀ piece ∈ pieces, separator ∉ piece) :
    splitOn separator (separated separator pieces) = pieces := by
  induction pieces with
  | nil => exact absurd rfl hne
  | cons piece more ih =>
    obtain ⟨hpiece, hmore⟩ := List.forall_mem_cons.mp h
    cases more with
    | nil => exact splitOn_of_notMem hpiece
    | cons next more =>
      rw [separated, splitOn_append, splitOn_of_notMem hpiece, ih (List.cons_ne_nil _ _) hmore]
      · rfl
      · exact fun h => nomatch h

end

/-! ## Blanks -/

/-- Blanks around a text that neither begins nor ends with one are removed. -/
theorem trim_append {front text back : List Char} (hfront : ∀ c ∈ front, isBlank c = true)
    (hback : ∀ c ∈ back, isBlank c = true) (hhead : ∀ c ∈ text.head?, isBlank c = false)
    (hlast : ∀ c ∈ text.getLast?, isBlank c = false) : trim (front ++ text ++ back) = text := by
  cases text with
  | nil =>
    have hall : ∀ c ∈ front ++ [] ++ back, isBlank c = true := by
      rw [List.append_nil]
      exact List.forall_mem_append.mpr ⟨hfront, hback⟩
    rw [trim, List.dropWhile_eq_nil_iff.mpr hall]
    rfl
  | cons first more =>
    have hback' : ∀ c ∈ back.reverse, isBlank c = true := fun c hc =>
      hback c (List.mem_reverse.mp hc)
    have hlast' : ∀ c ∈ (first :: more).reverse.head?, isBlank c = false := by
      rwa [List.head?_reverse]
    have hhead' : ∀ c ∈ (first :: more ++ back).head?, isBlank c = false := hhead
    rw [trim, List.append_assoc, dropWhile_append hfront hhead', List.reverse_append,
      dropWhile_append hback' hlast', List.reverse_reverse]

/-- A text without blanks stays as it is. -/
theorem trim_of_notBlank {text : List Char} (h : ∀ c ∈ text, isBlank c = false) :
    trim text = text := by
  have htrim := trim_append (List.forall_mem_nil _) (List.forall_mem_nil _)
    (fun c hc => h c (List.mem_of_head? hc)) (fun c hc => h c (List.mem_of_getLast? hc))
  rwa [List.nil_append, List.append_nil] at htrim

end Text

end SpatialSegment
