import Mathlib.Data.List.Zip
import SpatialSegment.Proofs.Box.Points
import SpatialSegment.Proofs.Box.Stored

/-!
# Covering boxes are least upper bounds

Boxes have a covering box exactly if those that are not the full space have one dimension. Joining
takes ends and never makes one, and of two ends that are the same number it takes the second; so it
is associative on the bits, though only on the numbers commutative. That a box covers a join
exactly if it covers both parts is enough for the rest: the covering box is the least one, and what
it is as numbers depends on which boxes there are and on nothing else.

The full space is the join of no boxes and, for the predicate, around all and inside all of them.
So it is left out among the boxes that the covering box is compared with.
-/

namespace SpatialSegment

/-! ## Ends -/

namespace Coord

theorem lesser_assoc (a b c : Coord) : lesser (lesser a b) c = lesser a (lesser b c) := by
  unfold lesser
  grind

theorem greater_assoc (a b c : Coord) : greater (greater a b) c = greater a (greater b c) := by
  unfold greater
  grind

end Coord

namespace Interval

theorem join_assoc (i j k : Interval) : (i.join j).join k = i.join (j.join k) := by
  simp only [join, Coord.lesser_assoc, Coord.greater_assoc]

theorem covers_refl (i : Interval) : i.covers i = true :=
  (covers_iff i i).mpr fun _ hc => hc

/-- An interval is around a join exactly if it is around both parts. -/
theorem covers_join_iff (i j k : Interval) :
    i.covers (j.join k) = true ↔ i.covers j = true ∧ i.covers k = true := by
  simp only [covers, join, decide_eq_true_eq, Coord.le_lesser_iff j.lo_isNaN k.lo_isNaN,
    Coord.greater_le_iff j.hi_isNaN k.hi_isNaN]
  tauto

/-- A row of intervals is around joined rows exactly if it is around both. -/
theorem forall₂_covers_join_iff {is js ks : List Interval} (h : js.length = ks.length) :
    List.Forall₂ (fun i j => i.covers j = true) is (List.zipWith join js ks) ↔
      List.Forall₂ (fun i j => i.covers j = true) is js ∧
        List.Forall₂ (fun i k => i.covers k = true) is ks := by
  induction js generalizing is ks with
  | nil =>
    obtain rfl := List.eq_nil_of_length_eq_zero h.symm
    rw [List.zipWith_nil_left, and_self_iff]
  | cons j js ih =>
    obtain _ | ⟨k, ks⟩ := ks
    · cases h
    · obtain _ | ⟨i, is⟩ := is
      · simp
      · rw [List.zipWith_cons_cons, List.forall₂_cons, List.forall₂_cons, List.forall₂_cons,
          covers_join_iff, ih (Nat.succ.inj h)]
        tauto

theorem sameNumbers_of_covers {i j : Interval} (hij : i.covers j = true) (hji : j.covers i = true) :
    i.sameNumbers j = true := by
  simp only [covers, decide_eq_true_eq, Coord.le_def] at hij hji
  simp only [sameNumbers, Coord.sameNumber, i.lo_isNaN, i.hi_isNaN, j.lo_isNaN, j.hi_isNaN,
    Bool.not_false, Bool.true_and, Bool.and_eq_true, beq_iff_eq]
  omega

end Interval

namespace Box

variable {a b c : Box} {d : Nat} {bs : List Box}

/-! ## Dimensions -/

theorem merge_eq_error_iff {cause : ArgumentFault} : a.merge b = .error cause ↔
    a.isFullSpace = false ∧ b.isFullSpace = false ∧ a.dimension ≠ b.dimension ∧
      cause = .mixedDimensions a.dimension b.dimension := by
  have hcond : (!a.isFullSpace && !b.isFullSpace && a.dimension != b.dimension) = true ↔
      a.isFullSpace = false ∧ b.isFullSpace = false ∧ a.dimension ≠ b.dimension := by
    simp only [Bool.and_eq_true, Bool.not_eq_true', bne_iff_ne, and_assoc]
  rw [merge]
  by_cases hmixed : a.isFullSpace = false ∧ b.isFullSpace = false ∧ a.dimension ≠ b.dimension
  · obtain ⟨ha, hb, hne⟩ := hmixed
    rw [if_pos (hcond.mpr ⟨ha, hb, hne⟩), Except.error.injEq]
    constructor
    · rintro rfl
      exact ⟨ha, hb, hne, rfl⟩
    · rintro ⟨-, -, -, rfl⟩
      rfl
  · rw [if_neg (mt hcond.mp hmixed)]
    constructor
    · rintro ⟨⟩
    · rintro ⟨ha, hb, hne, -⟩
      exact (hmixed ⟨ha, hb, hne⟩).elim

/-- The box has the dimension if it is not the full space. -/
def Suits (b : Box) (d : Nat) : Prop :=
  b.isFullSpace = false → b.dimension = d

theorem suits_of_isFullSpace (h : b.isFullSpace = true) (d : Nat) : b.Suits d := by
  intro hb
  rw [h] at hb
  cases hb

theorem Suits.exists_merge (ha : a.Suits d) (hb : b.Suits d) :
    ∃ c, a.merge b = .ok c ∧ c.Suits d := by
  cases hfull : a.isFullSpace with
  | true =>
    refine ⟨b, ?_, hb⟩
    rw [merge_eq_union (.inl hfull), union, if_pos hfull]
  | false =>
    cases hfull' : b.isFullSpace with
    | true =>
      refine ⟨a, ?_, ha⟩
      simp [merge, union, hfull, hfull']
    | false =>
      have hdim := ha hfull
      have hdim' := hb hfull'
      exact ⟨_, merge_eq_union (.inr (hdim.trans hdim'.symm)), fun _ => dimension_union hdim hdim'⟩

theorem suits_of_merge (h : a.merge b = .ok c) (hc : c.Suits d) : a.Suits d ∧ b.Suits d := by
  obtain rfl := eq_union_of_merge h
  cases hfull : a.isFullSpace with
  | true =>
    rw [union, if_pos hfull] at hc
    exact ⟨suits_of_isFullSpace hfull d, hc⟩
  | false =>
    cases hfull' : b.isFullSpace with
    | true =>
      rw [union, hfull, hfull'] at hc
      exact ⟨hc, suits_of_isFullSpace hfull' d⟩
    | false =>
      have hdim : a.dimension = b.dimension := by
        by_contra hne
        simp [merge, hfull, hfull', hne] at h
      have hunion := dimension_union hdim rfl
      have hb : b.dimension = d := by
        rw [← hunion]
        refine hc ?_
        rw [← Bool.not_eq_true, isFullSpace_iff] at hfull' ⊢
        omega
      exact ⟨fun _ => hdim.trans hb, fun _ => hb⟩

theorem suits_of_foldlM (h : bs.foldlM merge a = .ok c) (hc : c.Suits d) :
    a.Suits d ∧ ∀ b ∈ bs, b.Suits d := by
  induction bs generalizing a with
  | nil =>
    cases h
    exact ⟨hc, by simp⟩
  | cons b bs ih =>
    rw [List.foldlM_cons] at h
    obtain ⟨joined, hmerge, h⟩ := bind_eq_ok.mp h
    obtain ⟨hjoined, hbs⟩ := ih h
    obtain ⟨ha, hb⟩ := suits_of_merge hmerge hjoined
    exact ⟨ha, List.forall_mem_cons.mpr ⟨hb, hbs⟩⟩

/-- Joining boxes one after another comes to an end exactly if they have one dimension. -/
theorem exists_foldlM_merge_iff :
    (∃ c, bs.foldlM merge a = .ok c) ↔ ∃ d, a.Suits d ∧ ∀ b ∈ bs, b.Suits d := by
  constructor
  · rintro ⟨c, h⟩
    exact ⟨c.dimension, suits_of_foldlM h fun _ => rfl⟩
  · rintro ⟨d, ha, hbs⟩
    induction bs generalizing a with
    | nil => exact ⟨a, rfl⟩
    | cons b bs ih =>
      obtain ⟨hb, hbs⟩ := List.forall_mem_cons.mp hbs
      obtain ⟨joined, hmerge, hjoined⟩ := ha.exists_merge hb
      rw [List.foldlM_cons, hmerge, ok_bind]
      exact ih hjoined hbs

theorem foldl_of_foldlM (h : bs.foldlM merge a = .ok c) : bs.foldl union a = c := by
  induction bs generalizing a with
  | nil =>
    cases h
    rfl
  | cons b bs ih =>
    rw [List.foldlM_cons] at h
    obtain ⟨joined, hmerge, h⟩ := bind_eq_ok.mp h
    obtain rfl := eq_union_of_merge hmerge
    exact ih h

theorem covering_eq_ok_iff :
    covering bs = .ok c ↔ (∃ d, ∀ b ∈ bs, b.Suits d) ∧ unionAll bs = c := by
  have hends : (∃ c, covering bs = .ok c) ↔ ∃ d, ∀ b ∈ bs, b.Suits d := by
    refine exists_foldlM_merge_iff.trans (exists_congr fun d => ?_)
    exact and_iff_right (suits_of_isFullSpace rfl d)
  rw [← hends]
  constructor
  · exact fun h => ⟨⟨c, h⟩, foldl_of_foldlM h⟩
  · rintro ⟨⟨c', h⟩, rfl⟩
    obtain rfl : unionAll bs = c' := foldl_of_foldlM h
    exact h

/-- There is no covering box exactly if two boxes have different dimensions. -/
theorem covering_eq_error_iff : (∃ cause, covering bs = .error cause) ↔
    ∃ a ∈ bs, ∃ b ∈ bs, a.isFullSpace = false ∧ b.isFullSpace = false ∧
      a.dimension ≠ b.dimension := by
  constructor
  · rintro ⟨cause, herror⟩
    by_contra hnone
    push Not at hnone
    have hsuits : ∃ d, ∀ b ∈ bs, b.Suits d := by
      by_cases hproper : ∃ a ∈ bs, a.isFullSpace = false
      · obtain ⟨a, ha, hfull⟩ := hproper
        exact ⟨a.dimension, fun b hb hfull' => (hnone a ha b hb hfull hfull').symm⟩
      · exact ⟨0, fun b hb hfull => absurd ⟨b, hb, hfull⟩ hproper⟩
    have hok := covering_eq_ok_iff.mpr ⟨hsuits, rfl⟩
    rw [herror] at hok
    cases hok
  · rintro ⟨a, ha, b, hb, hfull, hfull', hne⟩
    cases hcovering : covering bs with
    | error cause => exact ⟨cause, rfl⟩
    | ok c =>
      obtain ⟨⟨d, hd⟩, -⟩ := covering_eq_ok_iff.mp hcovering
      exact absurd ((hd a ha hfull).trans (hd b hb hfull').symm) hne

/-! ## Joining -/

theorem eq_fullSpace (h : b.isFullSpace = true) : b = fullSpace := by
  obtain ⟨is⟩ := b
  exact congrArg Box.mk (List.isEmpty_iff.mp h)

@[simp] theorem fullSpace_union (b : Box) : fullSpace.union b = b := rfl

@[simp] theorem union_fullSpace (a : Box) : a.union fullSpace = a := by
  cases ha : a.isFullSpace with
  | true => rw [eq_fullSpace ha, fullSpace_union]
  | false =>
    rw [union, ha, if_neg Bool.false_ne_true]
    exact if_pos rfl

theorem union_of_proper (ha : a.isFullSpace = false) (hb : b.isFullSpace = false) :
    a.union b = ⟨List.zipWith Interval.join a.intervals b.intervals⟩ := by
  rw [union, ha, hb, if_neg Bool.false_ne_true, if_neg Bool.false_ne_true]

theorem isFullSpace_union (a b : Box) :
    (a.union b).isFullSpace = (a.isFullSpace && b.isFullSpace) := by
  cases ha : a.isFullSpace with
  | true => rw [eq_fullSpace ha, fullSpace_union, Bool.true_and]
  | false =>
    cases hb : b.isFullSpace with
    | true => rw [eq_fullSpace hb, union_fullSpace, ha, Bool.false_and]
    | false =>
      rw [Bool.false_and, union_of_proper ha hb, isFullSpace_eq_false_iff]
      rw [isFullSpace_eq_false_iff, dimension] at ha hb
      rw [dimension, List.length_zipWith]
      omega

theorem union_assoc (a b c : Box) : (a.union b).union c = a.union (b.union c) := by
  cases ha : a.isFullSpace with
  | true => rw [eq_fullSpace ha, fullSpace_union, fullSpace_union]
  | false =>
    cases hb : b.isFullSpace with
    | true => rw [eq_fullSpace hb, union_fullSpace, fullSpace_union]
    | false =>
      cases hc : c.isFullSpace with
      | true => rw [eq_fullSpace hc, union_fullSpace, union_fullSpace]
      | false =>
        have hab : (a.union b).isFullSpace = false := by rw [isFullSpace_union, ha, Bool.false_and]
        have hbc : (b.union c).isFullSpace = false := by rw [isFullSpace_union, hb, Bool.false_and]
        rw [union_of_proper hab hc, union_of_proper ha hbc, union_of_proper ha hb,
          union_of_proper hb hc]
        simp only [List.zipWith_zipWith_left, List.zipWith_zipWith_right, Interval.join_assoc]

theorem foldl_union (a : Box) (bs : List Box) : bs.foldl union a = a.union (unionAll bs) := by
  induction bs generalizing a with
  | nil => exact (union_fullSpace a).symm
  | cons b bs ih =>
    rw [List.foldl_cons, ih, union_assoc, ← ih b]
    rfl

theorem unionAll_cons (b : Box) (bs : List Box) : unionAll (b :: bs) = b.union (unionAll bs) :=
  foldl_union b bs

theorem unionAll_append (bs cs : List Box) :
    unionAll (bs ++ cs) = (unionAll bs).union (unionAll cs) := by
  rw [← foldl_union]
  exact List.foldl_append

theorem isFullSpace_unionAll :
    (unionAll bs).isFullSpace = true ↔ ∀ b ∈ bs, b.isFullSpace = true := by
  induction bs with
  | nil => simp [unionAll, fullSpace, isFullSpace]
  | cons b bs ih =>
    rw [unionAll_cons, isFullSpace_union, Bool.and_eq_true, ih, List.forall_mem_cons]

theorem dimension_unionAll_le {n : Nat} (h : ∀ b ∈ bs, b.dimension ≤ n) :
    (unionAll bs).dimension ≤ n := by
  induction bs with
  | nil => exact Nat.zero_le n
  | cons b bs ih =>
    obtain ⟨hb, hbs⟩ := List.forall_mem_cons.mp h
    rw [unionAll_cons]
    exact dimension_union_le hb (ih hbs)

/-- Boxes that are the full space add nothing. -/
theorem unionAll_filter_proper (bs : List Box) :
    unionAll (bs.filter fun b => !b.isFullSpace) = unionAll bs := by
  induction bs with
  | nil => rfl
  | cons b bs ih =>
    cases hb : b.isFullSpace with
    | true => rw [List.filter_cons_of_neg (by simp [hb]), ih, unionAll_cons, eq_fullSpace hb,
        fullSpace_union]
    | false => rw [List.filter_cons_of_pos (by simp [hb]), unionAll_cons, ih, unionAll_cons]

/-! ## The order of boxes -/

theorem covers_of_isFullSpace (hb : b.isFullSpace = true) : a.covers b = true := by
  simp [covers, hb]

theorem isFullSpace_covers (ha : a.isFullSpace = true) : a.covers b = true := by
  simp [covers, ha]

theorem covers_refl (b : Box) : b.covers b = true := by
  cases hb : b.isFullSpace with
  | true => exact isFullSpace_covers hb
  | false => exact (covers_iff_intervals hb hb).mpr (List.forall₂_same.mpr fun i _ => i.covers_refl)

theorem sameNumbers_of_covers (ha : a.isFullSpace = false) (hb : b.isFullSpace = false)
    (hab : a.covers b = true) (hba : b.covers a = true) : a.sameNumbers b = true := by
  rw [covers_iff_intervals ha hb] at hab
  rw [covers_iff_intervals hb ha] at hba
  rw [sameNumbers, Bool.and_eq_true, beq_iff_eq]
  refine (all_zip_iff _).mpr ?_
  refine hab.mp (fun i j hij hji => ?_) (List.Forall₂.flip hba)
  exact Interval.sameNumbers_of_covers hij hji

/-- A box is around a join exactly if it is around both parts. -/
theorem covers_union_iff {u : Box} (hu : u.isFullSpace = false) (ha : a.Suits d) (hb : b.Suits d) :
    u.covers (a.union b) = true ↔ u.covers a = true ∧ u.covers b = true := by
  cases hfull : a.isFullSpace with
  | true =>
    rw [eq_fullSpace hfull, fullSpace_union]
    exact (and_iff_right (covers_of_isFullSpace rfl)).symm
  | false =>
    cases hfull' : b.isFullSpace with
    | true =>
      rw [eq_fullSpace hfull', union_fullSpace]
      exact (and_iff_left (covers_of_isFullSpace rfl)).symm
    | false =>
      have hjoin : (a.union b).isFullSpace = false := by rw [isFullSpace_union, hfull]; rfl
      rw [covers_iff_intervals hu hjoin, covers_iff_intervals hu hfull,
        covers_iff_intervals hu hfull', union_of_proper hfull hfull']
      exact Interval.forall₂_covers_join_iff ((ha hfull).trans (hb hfull').symm)

theorem suits_unionAll (hbs : ∀ b ∈ bs, b.Suits d) : (unionAll bs).Suits d := by
  induction bs with
  | nil => exact suits_of_isFullSpace rfl d
  | cons b bs ih =>
    obtain ⟨hb, hbs⟩ := List.forall_mem_cons.mp hbs
    obtain ⟨joined, hmerge, hjoined⟩ := hb.exists_merge (ih hbs)
    rw [unionAll_cons, ← eq_union_of_merge hmerge]
    exact hjoined

/-- A box is around the join of all boxes exactly if it is around each of them. -/
theorem covers_unionAll_iff {u : Box} (hu : u.isFullSpace = false) (hbs : ∀ b ∈ bs, b.Suits d) :
    u.covers (unionAll bs) = true ↔ ∀ b ∈ bs, u.covers b = true := by
  induction bs with
  | nil => simp [covers_of_isFullSpace (a := u) (b := unionAll []) rfl]
  | cons b bs ih =>
    obtain ⟨hb, hbs⟩ := List.forall_mem_cons.mp hbs
    rw [unionAll_cons, covers_union_iff hu hb (suits_unionAll hbs), ih hbs, List.forall_mem_cons]

/-- The join of all boxes is around each of them: it is around itself. -/
theorem unionAll_covers (hbs : ∀ b ∈ bs, b.Suits d) : ∀ b ∈ bs, (unionAll bs).covers b = true := by
  cases hfull : (unionAll bs).isFullSpace with
  | true => exact fun b _ => isFullSpace_covers hfull
  | false => exact (covers_unionAll_iff hfull hbs).mp (covers_refl _)

/-- Which boxes there are decides which numbers bound them all. -/
theorem sameNumbers_unionAll {cs : List Box} (same : ∀ b, b ∈ cs ↔ b ∈ bs)
    (hbs : ∀ b ∈ bs, b.Suits d) : (unionAll cs).sameNumbers (unionAll bs) = true := by
  have hcs : ∀ b ∈ cs, b.Suits d := fun b hb => hbs b ((same b).mp hb)
  have hfulls : (unionAll cs).isFullSpace = true ↔ (unionAll bs).isFullSpace = true := by
    rw [isFullSpace_unionAll, isFullSpace_unionAll]
    exact forall_congr' fun b => imp_congr_left (same b)
  cases hfull : (unionAll bs).isFullSpace with
  | true =>
    rw [eq_fullSpace hfull, eq_fullSpace (hfulls.mpr hfull)]
    rfl
  | false =>
    have hfull' : (unionAll cs).isFullSpace = false := by
      rw [← Bool.not_eq_true, hfulls, hfull]
      exact Bool.false_ne_true
    -- each join is around the same boxes as the other, so each is around the other join
    apply sameNumbers_of_covers hfull' hfull
    · exact (covers_unionAll_iff hfull' hbs).mpr fun b hb => unionAll_covers hcs b ((same b).mpr hb)
    · exact (covers_unionAll_iff hfull hcs).mpr fun b hb => unionAll_covers hbs b ((same b).mp hb)

/-! ## The bare ends -/

/-- The ends joined dimension by dimension, without a look at whether they are in order. -/
def joinEnds : List Coord → List Coord → List Coord
  | lo :: hi :: rest, lo' :: hi' :: rest' =>
    Coord.lesser lo lo' :: Coord.greater hi hi' :: joinEnds rest rest'
  | _, _ => []

/-- As `union` does it: no ends at all add nothing. -/
def unionEnds (xs ys : List Coord) : List Coord :=
  if xs = [] then ys else if ys = [] then xs else joinEnds xs ys

theorem coords_eq_nil_iff : b.coords = [] ↔ b.isFullSpace = true := by
  rw [← List.length_eq_zero_iff, length_coords, isFullSpace_iff]
  omega

theorem coords_zipWith_join (is js : List Interval) :
    (Box.mk (List.zipWith Interval.join is js)).coords =
      joinEnds (Box.mk is).coords (Box.mk js).coords := by
  induction is generalizing js with
  | nil => rfl
  | cons i is ih =>
    cases js with
    | nil => rfl
    | cons j js =>
      rw [List.zipWith_cons_cons, coords_cons, coords_cons, coords_cons, ih, joinEnds]
      rfl

theorem coords_union (a b : Box) : (a.union b).coords = unionEnds a.coords b.coords := by
  unfold unionEnds
  cases ha : a.isFullSpace with
  | true => rw [if_pos (coords_eq_nil_iff.mpr ha), eq_fullSpace ha, fullSpace_union]
  | false =>
    have hacoords : a.coords ≠ [] := by rw [Ne, coords_eq_nil_iff, ha]; exact Bool.false_ne_true
    cases hb : b.isFullSpace with
    | true =>
      rw [if_neg hacoords, if_pos (coords_eq_nil_iff.mpr hb), eq_fullSpace hb, union_fullSpace]
    | false =>
      have hbcoords : b.coords ≠ [] := by rw [Ne, coords_eq_nil_iff, hb]; exact Bool.false_ne_true
      rw [if_neg hacoords, if_neg hbcoords, union_of_proper ha hb]
      exact coords_zipWith_join a.intervals b.intervals

theorem coords_unionAll (bs : List Box) :
    (unionAll bs).coords = (bs.map coords).foldl unionEnds [] := by
  have hfold : ∀ a : Box, (bs.foldl union a).coords = (bs.map coords).foldl unionEnds a.coords := by
    induction bs with
    | nil => exact fun a => rfl
    | cons b bs ih =>
      intro a
      rw [List.foldl_cons, ih, coords_union, List.map_cons, List.foldl_cons]
  exact hfold fullSpace

/-! ## Covering boxes -/

/-- A covering box has the dimension of the first box that has one. -/
theorem dimension_of_covering (h : covering bs = .ok c) (d : Nat) :
    (c.isFullSpace = false ∧ c.dimension = d) ↔
      ∃ first ∈ bs.find? fun b => !b.isFullSpace, first.dimension = d := by
  obtain ⟨⟨d', suits⟩, rfl⟩ := covering_eq_ok_iff.mp h
  cases hfirst : bs.find? fun b => !b.isFullSpace with
  | none =>
    have hfull : (unionAll bs).isFullSpace = true := by
      refine isFullSpace_unionAll.mpr fun b hb => ?_
      simpa using List.find?_eq_none.mp hfirst b hb
    simp [hfull]
  | some first =>
    have hmem := List.mem_of_find?_eq_some hfirst
    have hproper : first.isFullSpace = false := by simpa using List.find?_some hfirst
    have hproper' : (unionAll bs).isFullSpace = false := by
      rw [← Bool.not_eq_true, isFullSpace_unionAll]
      intro hall
      rw [hall first hmem] at hproper
      cases hproper
    have hdim : (unionAll bs).dimension = first.dimension :=
      (suits_unionAll suits hproper').trans (suits first hmem hproper).symm
    simp [hproper', hdim]

/-- The same boxes, in any order and number, have the same covering box as numbers. -/
theorem exists_covering {cs : List Box} (same : ∀ b, b ∈ cs ↔ b ∈ bs) (h : covering bs = .ok c) :
    ∃ c', covering cs = .ok c' ∧ c'.sameNumbers c = true := by
  obtain ⟨⟨d, suits⟩, rfl⟩ := covering_eq_ok_iff.mp h
  have suits' : ∀ b ∈ cs, b.Suits d := fun b hb => suits b ((same b).mp hb)
  exact ⟨_, covering_eq_ok_iff.mpr ⟨⟨d, suits'⟩, rfl⟩, sameNumbers_unionAll same suits⟩

/-- Boxes can be covered in two parts. -/
theorem covering_append_iff {cs : List Box} : covering (bs ++ cs) = .ok c ↔
    ∃ x y, covering bs = .ok x ∧ covering cs = .ok y ∧ x.merge y = .ok c := by
  constructor
  · intro h
    obtain ⟨⟨d, hd⟩, rfl⟩ := covering_eq_ok_iff.mp h
    obtain ⟨hbs, hcs⟩ := List.forall_mem_append.mp hd
    obtain ⟨joined, hmerge, -⟩ := (suits_unionAll hbs).exists_merge (suits_unionAll hcs)
    have hx := covering_eq_ok_iff.mpr ⟨⟨d, hbs⟩, rfl⟩
    have hy := covering_eq_ok_iff.mpr ⟨⟨d, hcs⟩, rfl⟩
    refine ⟨_, _, hx, hy, ?_⟩
    rw [hmerge, eq_union_of_merge hmerge, unionAll_append]
  · rintro ⟨x, y, hx, hy, hmerge⟩
    obtain ⟨hxdim, hydim⟩ := suits_of_merge (d := c.dimension) hmerge fun _ => rfl
    have hbs := (suits_of_foldlM hx hxdim).2
    have hcs := (suits_of_foldlM hy hydim).2
    refine covering_eq_ok_iff.mpr ⟨⟨c.dimension, List.forall_mem_append.mpr ⟨hbs, hcs⟩⟩, ?_⟩
    rw [unionAll_append, (covering_eq_ok_iff.mp hx).2, (covering_eq_ok_iff.mp hy).2]
    exact (eq_union_of_merge hmerge).symm

/-- There is no covering box of a list exactly if two of its boxes have different dimensions, the
full space having none. Otherwise what joining the bare ends gives passes the check for boxes and is
the covering box. It is the full space exactly if the list has no other box, it is around every box,
and a box with a dimension that is around every box is around it. The same boxes in another order or
number have the same covering box as numbers, and a list in two parts has that of the boxes around
its parts, bit by bit. -/
theorem covering_is_least_upper_bound (bs : List Box) :
    ((∃ cause, covering bs = .error cause) ↔
      ∃ a ∈ bs, ∃ b ∈ bs, a.isFullSpace = false ∧ b.isFullSpace = false ∧
        a.dimension ≠ b.dimension) ∧
    (∀ c, covering bs = .ok c →
      ofCoords ((bs.map coords).foldl unionEnds []) = .ok c ∧
      (c.isFullSpace = true ↔ ∀ b ∈ bs, b.isFullSpace = true) ∧
      (∀ b ∈ bs, c.covers b = true) ∧
      (∀ u : Box, u.isFullSpace = false → (∀ b ∈ bs, u.covers b = true) → u.covers c = true) ∧
      ∀ cs, (∀ b, b ∈ cs ↔ b ∈ bs) → ∃ c', covering cs = .ok c' ∧ c'.sameNumbers c = true) ∧
    ∀ cs c, covering (bs ++ cs) = .ok c ↔
      ∃ x y, covering bs = .ok x ∧ covering cs = .ok y ∧ x.merge y = .ok c := by
  refine ⟨covering_eq_error_iff, ?_, fun cs c => covering_append_iff⟩
  intro c hc
  have hsame : ∀ cs, (∀ b, b ∈ cs ↔ b ∈ bs) →
      ∃ c', covering cs = .ok c' ∧ c'.sameNumbers c = true :=
    fun cs same => exists_covering same hc
  obtain ⟨⟨d, hd⟩, rfl⟩ := covering_eq_ok_iff.mp hc
  refine ⟨?_, isFullSpace_unionAll, unionAll_covers hd, ?_, hsame⟩
  · rw [← coords_unionAll]
    exact ofCoords_coords _
  · exact fun u hu hall => (covers_unionAll_iff hu hd).mpr hall

/-- Two half-open lines that start at the two zeros: which zero the covering box has depends on the
order, which number it starts at does not. A square has no covering box with them. -/
theorem covering_is_least_upper_bound_zeros :
    let left : Box := ⟨[⟨⟨0x8000000000000000⟩, ⟨0x3ff0000000000000⟩, by decide⟩]⟩
    let right : Box := ⟨[⟨⟨0⟩, ⟨0x7ff0000000000000⟩, by decide⟩]⟩
    let square : Box := ⟨[⟨⟨0⟩, ⟨0x3ff0000000000000⟩, by decide⟩,
      ⟨⟨0⟩, ⟨0x3ff0000000000000⟩, by decide⟩]⟩
    (∃ cause, covering [left, square] = .error cause) ∧
      (∀ b ∈ [fullSpace, left, right], right.covers b = true) ∧
      (∀ u : Box, u.isFullSpace = false → (∀ b ∈ [fullSpace, left, right], u.covers b = true) →
        u.covers right = true) ∧
      (∃ c, covering [right, left, right, left, fullSpace] = .ok c ∧
        c.sameNumbers right = true ∧ c ≠ right) ∧
      ∃ x y, covering [fullSpace, left] = .ok x ∧ covering [right] = .ok y ∧
        x.merge y = .ok right := by
  intro left right square
  obtain ⟨herror, -, -⟩ := covering_is_least_upper_bound [left, square]
  obtain ⟨-, hok, -⟩ := covering_is_least_upper_bound [fullSpace, left, right]
  obtain ⟨-, -, hcovers, hleast, hsame⟩ := hok right rfl
  refine ⟨herror.mpr ⟨left, by simp, square, by simp, rfl, rfl, by decide⟩, hcovers, hleast, ?_, ?_⟩
  · obtain ⟨c, hc, hnumbers⟩ := hsame [right, left, right, left, fullSpace] (by simp; tauto)
    obtain ⟨-, rfl⟩ := covering_eq_ok_iff.mp hc
    exact ⟨_, hc, hnumbers, by decide⟩
  · obtain ⟨-, -, happend⟩ := covering_is_least_upper_bound [fullSpace, left]
    exact (happend [right] right).mp rfl

end Box

end SpatialSegment
