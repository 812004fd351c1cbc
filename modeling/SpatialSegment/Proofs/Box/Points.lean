import SpatialSegment.Proofs.Box.Bounds

/-!
# Boxes as sets of points

A point has one number per dimension, and it lies in a box if each of its numbers lies between the
ends of its interval. Touching is to have a point in common, and covering is to have all points of
the other box. Both are decided by the ends alone, so the two sides meet in one interval first:
an interval holds its own ends, and of two that touch the greater low end is in both.

The full space, which has no dimension, is what the predicates treat apart.
-/

namespace SpatialSegment

namespace Interval

/-- The number lies between the ends, which belong to the interval. -/
def Contains (i : Interval) (c : Coord) : Prop := i.lo ≤ c ∧ c ≤ i.hi

theorem contains_lo (i : Interval) : i.Contains i.lo :=
  ⟨Coord.le_refl i.lo_isNaN, i.lo_le_hi⟩

theorem contains_hi (i : Interval) : i.Contains i.hi :=
  ⟨i.lo_le_hi, Coord.le_refl i.hi_isNaN⟩

theorem touches_comm (i j : Interval) : i.touches j = j.touches i := by
  simp only [touches, and_comm]

theorem touches_iff (i j : Interval) :
    i.touches j = true ↔ ∃ c, i.Contains c ∧ j.Contains c := by
  simp only [touches, decide_eq_true_eq]
  constructor
  · rintro ⟨hij, hji⟩
    rcases Coord.le_total i.lo_isNaN j.lo_isNaN with h | h
    · exact ⟨j.lo, ⟨h, hji⟩, j.contains_lo⟩
    · exact ⟨i.lo, i.contains_lo, ⟨h, hij⟩⟩
  · rintro ⟨c, ⟨hilo, hihi⟩, ⟨hjlo, hjhi⟩⟩
    exact ⟨Coord.le_trans hilo hjhi, Coord.le_trans hjlo hihi⟩

theorem covers_iff (i j : Interval) :
    i.covers j = true ↔ ∀ c, j.Contains c → i.Contains c := by
  simp only [covers, decide_eq_true_eq]
  constructor
  · rintro ⟨hlo, hhi⟩ c ⟨hjlo, hjhi⟩
    exact ⟨Coord.le_trans hlo hjlo, Coord.le_trans hjhi hhi⟩
  · intro h
    exact ⟨(h j.lo j.contains_lo).1, (h j.hi j.contains_hi).2⟩

/-- There is a list of numbers in both rows of intervals if there is a number for each dimension. -/
theorem exists_contains_iff {is js : List Interval} :
    (∃ cs, List.Forall₂ Contains is cs ∧ List.Forall₂ Contains js cs) ↔
      List.Forall₂ (fun i j => ∃ c, i.Contains c ∧ j.Contains c) is js := by
  constructor
  · rintro ⟨cs, his, hjs⟩
    induction his generalizing js with
    | nil =>
      cases hjs
      exact .nil
    | cons hi _ ih =>
      cases hjs with
      | cons hj hjs => exact .cons ⟨_, hi, hj⟩ (ih hjs)
  · intro h
    induction h with
    | nil => exact ⟨[], .nil, .nil⟩
    | cons hc _ ih =>
      obtain ⟨c, hi, hj⟩ := hc
      obtain ⟨cs, his, hjs⟩ := ih
      exact ⟨c :: cs, .cons hi his, .cons hj hjs⟩

/-- One row of intervals has all lists of another if it does so in each dimension. The low ends of
the other dimensions complete a number of one dimension to a list. -/
theorem forall_contains_iff {is js : List Interval} (h : is.length = js.length) :
    (∀ cs, List.Forall₂ Contains js cs → List.Forall₂ Contains is cs) ↔
      List.Forall₂ (fun i j => ∀ c, j.Contains c → i.Contains c) is js := by
  constructor
  · intro hall
    induction is generalizing js with
    | nil =>
      obtain rfl := List.eq_nil_of_length_eq_zero h.symm
      exact .nil
    | cons i is ih =>
      obtain _ | ⟨j, js⟩ := js
      · cases h
      · have lows : List.Forall₂ Contains js (js.map lo) := by
          rw [List.forall₂_map_right_iff, List.forall₂_same]
          exact fun j' _ => j'.contains_lo
        refine .cons (fun c hc => ?_) (ih (Nat.succ.inj h) fun cs hcs => ?_)
        · cases hall _ (.cons hc lows) with
          | cons hi _ => exact hi
        · cases hall _ (.cons j.contains_lo hcs) with
          | cons _ his => exact his
  · intro hall cs hcs
    induction hall generalizing cs with
    | nil => exact hcs
    | cons hij _ ih =>
      cases hcs with
      | cons hj hjs => exact .cons (hij _ hj) (ih (Nat.succ.inj h) _ hjs)

theorem isNaN_of_contains {is : List Interval} {cs : List Coord}
    (h : List.Forall₂ Contains is cs) : ∀ c ∈ cs, c.isNaN = false := by
  induction h with
  | nil => exact fun c hc => absurd hc List.not_mem_nil
  | cons hi _ ih => exact List.forall_mem_cons.mpr ⟨hi.1.2.1, ih⟩

end Interval

/-- A point of a space of that many dimensions: as many numbers. -/
structure Point (dimension : Nat) where
  coords : List Coord
  length_coords : coords.length = dimension
  coords_isNaN : ∀ c ∈ coords, c.isNaN = false

namespace Box

variable {a b r : Box} {n : Nat}

/-- Every number of the point lies in the interval of its dimension. -/
def Contains (b : Box) (p : Point n) : Prop :=
  List.Forall₂ Interval.Contains b.intervals p.coords

theorem forall_point_iff (hb : b.dimension = n) {P : List Coord → Prop} :
    (∀ p : Point n, b.Contains p → P p.coords) ↔
      ∀ cs, List.Forall₂ Interval.Contains b.intervals cs → P cs := by
  constructor
  · intro h cs hcs
    exact h ⟨cs, hcs.length_eq.symm.trans hb, Interval.isNaN_of_contains hcs⟩ hcs
  · exact fun h p hp => h p.coords hp

/-- Rows of one length that agree pair by pair. -/
theorem all_zip_iff {is js : List Interval} (p : Interval × Interval → Bool) :
    (is.length = js.length ∧ (is.zip js).all p = true) ↔
      List.Forall₂ (fun i j => p (i, j) = true) is js := by
  rw [List.forall₂_iff_zip, List.all_eq_true]
  exact and_congr_right fun _ => ⟨fun hall _ _ hmem => hall _ hmem, fun hall _ hmem => hall hmem⟩

section

variable (ha : a.isFullSpace = false) (hb : b.isFullSpace = false)

include ha hb

/-- Boxes touch in every dimension or not at all. -/
theorem intersects_iff_intervals : a.intersects b = true ↔
    List.Forall₂ (fun i j => i.touches j = true) a.intervals b.intervals := by
  simp only [intersects, ha, hb, Bool.false_or, Bool.and_eq_true, beq_iff_eq]
  exact all_zip_iff _

theorem covers_iff_intervals : a.covers b = true ↔
    List.Forall₂ (fun i j => i.covers j = true) a.intervals b.intervals := by
  simp only [covers, ha, hb, Bool.false_or, Bool.and_eq_true, beq_iff_eq]
  exact all_zip_iff _

theorem intersects_iff_point (hdim : a.dimension = n) :
    a.intersects b = true ↔ ∃ p : Point n, a.Contains p ∧ b.Contains p := by
  rw [intersects_iff_intervals ha hb]
  simp only [Interval.touches_iff]
  rw [← Interval.exists_contains_iff]
  constructor
  · rintro ⟨cs, hacs, hbcs⟩
    exact ⟨⟨cs, hacs.length_eq.symm.trans hdim, Interval.isNaN_of_contains hacs⟩, hacs, hbcs⟩
  · rintro ⟨p, hap, hbp⟩
    exact ⟨p.coords, hap, hbp⟩

theorem covers_iff_point (hdim : a.dimension = n) (hdim' : b.dimension = n) :
    a.covers b = true ↔ ∀ p : Point n, b.Contains p → a.Contains p := by
  rw [covers_iff_intervals ha hb]
  simp only [Interval.covers_iff]
  rw [← Interval.forall_contains_iff (hdim.trans hdim'.symm)]
  exact (forall_point_iff hdim').symm

end

theorem isFullSpace_eq_false_iff : b.isFullSpace = false ↔ 1 ≤ b.dimension := by
  rw [← Bool.not_eq_true, isFullSpace_iff]
  omega

theorem intersects_fullSpace (hb : b.isFullSpace = true) : a.intersects b = true := by
  simp [intersects, hb]

theorem intersects_comm (a b : Box) : a.intersects b = b.intersects a := by
  cases ha : a.isFullSpace with
  | true => simp [intersects, ha]
  | false =>
    cases hb : b.isFullSpace with
    | true => simp [intersects, hb]
    | false =>
      rw [Bool.eq_iff_iff, intersects_iff_intervals ha hb, intersects_iff_intervals hb ha]
      constructor
      · exact fun h => (h.imp fun i j hij => (Interval.touches_comm j i).trans hij).flip
      · exact fun h => (h.imp fun i j hij => (Interval.touches_comm j i).trans hij).flip

/-- Of boxes with a dimension, `a` around `b`, the outer one touches what the inner one touches. -/
theorem intersects_of_covers (ha : a.isFullSpace = false) (hb : b.isFullSpace = false)
    (hcovers : a.covers b = true) (htouch : b.intersects r = true) : a.intersects r = true := by
  cases hr : r.isFullSpace with
  | true => exact intersects_fullSpace hr
  | false =>
    have hdim : a.dimension = b.dimension := ((covers_iff_intervals ha hb).mp hcovers).length_eq
    obtain ⟨p, hbp, hrp⟩ := (intersects_iff_point hb hr rfl).mp htouch
    have hap := (covers_iff_point ha hb hdim rfl).mp hcovers p hbp
    exact (intersects_iff_point ha hr hdim).mpr ⟨p, hap, hrp⟩

/-- What the predicates say of points. Boxes of one dimension touch exactly if a point lies in both,
and one covers the other exactly if it has all its points; boxes of different dimensions do neither.
Touching is symmetric, for the full space as well, and a box around another touches whatever that
one touches. -/
theorem predicates_mean_points (a b : Box) :
    (∀ n, 1 ≤ n → a.dimension = n → b.dimension = n →
      (a.intersects b = true ↔ ∃ p : Point n, a.Contains p ∧ b.Contains p) ∧
      (a.covers b = true ↔ ∀ p : Point n, b.Contains p → a.Contains p)) ∧
    (a.isFullSpace = false → b.isFullSpace = false → a.dimension ≠ b.dimension →
      a.intersects b = false ∧ a.covers b = false) ∧
    a.intersects b = b.intersects a ∧
    (a.isFullSpace = false → b.isFullSpace = false → a.covers b = true →
      ∀ r : Box, b.intersects r = true → a.intersects r = true) := by
  refine ⟨?_, ?_, intersects_comm a b, ?_⟩
  · intro n hn hadim hbdim
    have ha : a.isFullSpace = false := isFullSpace_eq_false_iff.mpr (hadim ▸ hn)
    have hb : b.isFullSpace = false := isFullSpace_eq_false_iff.mpr (hbdim ▸ hn)
    exact ⟨intersects_iff_point ha hb hadim, covers_iff_point ha hb hadim hbdim⟩
  · intro ha hb hdim
    constructor
    · rw [← Bool.not_eq_true, intersects_iff_intervals ha hb]
      exact fun h => hdim h.length_eq
    · rw [← Bool.not_eq_true, covers_iff_intervals ha hb]
      exact fun h => hdim h.length_eq
  · exact fun ha hb hcovers r htouch => intersects_of_covers ha hb hcovers htouch

/-- A spot on the edge of a strip without ends is a point of both, and nothing of it sticks out. -/
theorem predicates_mean_points_edge :
    let strip : Box := ⟨[⟨⟨0x8000000000000000⟩, ⟨0x3ff0000000000000⟩, by decide⟩,
      ⟨⟨0xfff0000000000000⟩, ⟨0x7ff0000000000000⟩, by decide⟩]⟩
    let spot : Box := ⟨[⟨⟨0x3ff0000000000000⟩, ⟨0x3ff0000000000000⟩, by decide⟩,
      ⟨⟨0⟩, ⟨0x8000000000000000⟩, by decide⟩]⟩
    let line : Box := ⟨[⟨⟨0⟩, ⟨0x3ff0000000000000⟩, by decide⟩]⟩
    (∃ p : Point 2, strip.Contains p ∧ spot.Contains p) ∧
      (∀ p : Point 2, spot.Contains p → strip.Contains p) ∧
      strip.intersects line = false ∧ strip.covers line = false ∧
      ∀ r : Box, spot.intersects r = true → strip.intersects r = true := by
  intro strip spot line
  obtain ⟨hpoints, -, -, houter⟩ := predicates_mean_points strip spot
  obtain ⟨hintersects, hcovers⟩ := hpoints 2 (by decide) rfl rfl
  obtain ⟨-, hapart, -⟩ := predicates_mean_points strip line
  obtain ⟨hmeet, hcover⟩ := hapart rfl rfl (by decide)
  exact ⟨hintersects.mp (by decide), hcovers.mp (by decide), hmeet, hcover,
    houter rfl rfl (by decide)⟩

end Box

end SpatialSegment
