import SpatialSegment.Proofs.Checked.Insertion

/-!
# Which entries an index takes

An index tells from the box of its root whether it takes an entry. Along every history this comes to
the same as asking the first entry that it took: the full space is refused, and so is a box of
another dimension than that entry's. What is refused leaves the index as it was, and what is taken
stays, through all divisions of leaves.
-/

namespace SpatialSegment

namespace RTree

/-- Whether an entry goes with those held: it has a dimension, that of the first of them. -/
def Fits (held : List Entry) (e : Entry) : Prop :=
  e.box.isFullSpace = false ∧ ∀ first ∈ held.head?, e.box.dimension = first.box.dimension

/-- Of some entries those that are like the first that is not the full space. -/
def alike (entries : List Entry) : List Entry :=
  ((entries.find? fun e => !e.box.isFullSpace).map fun first =>
    entries.filter fun e => e.box.dimension == first.box.dimension).getD []

/-- A sound index with these entries, the first of which gives it its dimension. -/
structure Holds (t : RTree) (held : List Entry) : Prop where
  sound : Sound t
  entries : t.entries.Perm held
  dimension : t.dimension? = held.head?.map fun first => first.box.dimension

section

variable {t : RTree} {held : List Entry} {e : Entry}

theorem holds_empty (maxNodeSize : Nat) (two_le : 2 ≤ maxNodeSize) :
    Holds (empty maxNodeSize two_le) [] :=
  ⟨sound_empty maxNodeSize two_le, .refl _, rfl⟩

theorem Holds.length_eq (holds : Holds t held) : t.length = held.length :=
  holds.sound.counted.trans holds.entries.length_eq

theorem Holds.accepts_iff (holds : Holds t held) : t.accepts e = true ↔ Fits held e := by
  simp only [accepts, holds.dimension, Fits, Bool.and_eq_true, Bool.not_eq_true']
  refine and_congr_right fun _ => ?_
  cases held with
  | nil => simp
  | cons first held => simpa using eq_comm

/-- One entry more is held if it was taken, and the same entries otherwise. -/
theorem Holds.insert (holds : Holds t held) (e : Entry) :
    Holds (t.insert e) (held ++ taken t [e]) := by
  obtain ⟨sound, hperm⟩ := holds.sound.insert e
  refine ⟨sound, hperm.trans (holds.entries.append_right _), ?_⟩
  cases haccepts : t.accepts e with
  | false => simpa [insert_of_not_accepts haccepts, taken, haccepts] using holds.dimension
  | true =>
    obtain ⟨-, hfirst⟩ := holds.accepts_iff.mp haccepts
    rw [holds.sound.dimension?_insert haccepts]
    cases held with
    | nil => simp [taken, haccepts]
    | cons first held => simpa using hfirst first rfl

theorem Holds.foldl_insert (holds : Holds t held) (entries : List Entry) :
    Holds (entries.foldl RTree.insert t) (held ++ taken t entries) := by
  induction entries generalizing t held with
  | nil => simpa [taken] using holds
  | cons e entries ih =>
    rw [taken_cons, ← List.append_assoc]
    exact ih (holds.insert e)

/-! ## All entries at once -/

/-- An index without a dimension takes nothing up to the first entry that has one. -/
theorem Sound.taken_eq_alike (sound : Sound t) (h : t.dimension? = none) (entries : List Entry) :
    taken t entries = alike entries := by
  induction entries with
  | nil => rfl
  | cons e entries ih =>
    cases hfull : e.box.isFullSpace with
    | true =>
      have hrefused : t.accepts e = false := by simp [accepts, hfull]
      rw [taken, if_neg (by simp [hrefused]), insert_of_not_accepts hrefused, ih, alike, alike,
        List.find?_cons_of_neg (by simp [hfull])]
      cases hfind : entries.find? fun e => !e.box.isFullSpace with
      | none => rfl
      | some first =>
        -- An entry without a dimension is not like one that has one.
        have hfirst := List.find?_some hfind
        have hne : e.box.dimension ≠ first.box.dimension := by
          rw [Bool.not_eq_true', ← Bool.not_eq_true, Box.isFullSpace_iff] at hfirst
          rw [Box.isFullSpace_iff] at hfull
          omega
        simp [hne]
    | false =>
      have haccepts : t.accepts e = true := by simp [accepts, hfull, h]
      rw [taken, if_pos haccepts,
        (sound.insert e).1.taken_eq_filter (sound.dimension?_insert haccepts), alike,
        List.find?_cons_of_pos (by simp [hfull])]
      simp

/-- All entries are taken exactly if each one is when its turn comes. -/
theorem taken_eq_self_iff {entries : List Entry} :
    taken t entries = entries ↔
      ∀ before e after, entries = before ++ e :: after →
        (before.foldl RTree.insert t).accepts e = true := by
  induction entries generalizing t with
  | nil => simp [taken]
  | cons e entries ih =>
    cases haccepts : t.accepts e with
    | true =>
      rw [taken, if_pos haccepts, List.cons_inj_right, ih]
      constructor
      · rintro hall (_ | ⟨x, before⟩) y after heq
        · cases heq
          exact haccepts
        · cases heq
          exact hall before y after rfl
      · rintro hall before y after rfl
        exact hall (e :: before) y after rfl
    | false =>
      have hle := (taken_sublist (t.insert e) entries).length_le
      refine iff_of_false (fun heq => ?_) fun hall => ?_
      · rw [taken, if_neg (by simp [haccepts])] at heq
        rw [heq, List.length_cons] at hle
        omega
      · have htaken := hall [] e entries rfl
        rw [List.foldl_nil, haccepts] at htaken
        cases htaken

end

/-- After any calls on an empty index, `held` being what it has taken so far, the index holds just
that. It takes an entry exactly if this fits, stays as it is if it refuses the entry, and finds a
place for it otherwise. Of several entries it takes every one that it would take alone when its turn
comes, whatever became of those before, and it tells whether these were all. As long as four bytes
hold the numbers, the machine does the same. -/
theorem acceptance_after_calls (maxNodeSize : Nat) (two_le : 2 ≤ maxNodeSize) (calls : List Call) :
    let start := empty maxNodeSize two_le
    let t := runCalls start calls
    let held := taken start (calls.flatMap Call.entries)
    held = alike (calls.flatMap Call.entries) ∧
      t.entries.Perm held ∧ t.length = held.length ∧
      (∀ e, t.accepts e = true ↔ Fits held e) ∧
      (∀ e, t.accepts e = false → t.insert e = t) ∧
      (∀ e, t.accepts e = true → t.place e = some (t.insert e) ∧
        (t.insert e).entries.Perm (held ++ [e]) ∧ (t.insert e).length = held.length + 1) ∧
      ∀ entries,
        (t.insertAll entries).1 = entries.foldl RTree.insert t ∧
          (t.insertAll entries).1.entries.Perm (held ++ taken t entries) ∧
          ((t.insertAll entries).2 = true ↔
            ∀ before e after, entries = before ++ e :: after →
              (before.foldl RTree.insert t).accepts e = true) ∧
          (3 * (held.length + entries.length) + 1 < Word.limit 4 →
            t.checkedInsertAll true entries = pure (t.insertAll entries)) := by
  intro start t held
  have hstart : Holds start [] := holds_empty maxNodeSize two_le
  have holds : Holds t held := by
    rw [show t = _ from runCalls_eq start calls]
    exact hstart.foldl_insert _
  refine ⟨hstart.sound.taken_eq_alike hstart.dimension _, holds.entries, holds.length_eq,
    fun e => holds.accepts_iff, fun e => insert_of_not_accepts, fun e haccepts => ?_,
    fun entries =>
      ⟨insertAll_eq t entries, ?_, insertAll_all_iff.trans taken_eq_self_iff, fun room => ?_⟩⟩
  · have htaken : taken t [e] = [e] := by simp [taken, haccepts]
    have hinsert := holds.insert e
    rw [htaken] at hinsert
    refine ⟨place_eq_insert holds.sound haccepts, hinsert.entries, ?_⟩
    simpa using hinsert.length_eq
  · rw [insertAll_eq]
    exact (holds.foldl_insert entries).entries
  · rw [← holds.length_eq] at room
    exact holds.sound.checkedInsertAll_eq entries room

/-- The full space and the rectangle are refused, and the intervals around them are taken. -/
theorem acceptance_after_four :
    let low : Box := ⟨[⟨⟨0⟩, ⟨0x3ff0000000000000⟩, by decide⟩]⟩
    let high : Box := ⟨[⟨⟨0x4000000000000000⟩, ⟨0x4008000000000000⟩, by decide⟩]⟩
    let flat : Box := ⟨low.intervals ++ high.intervals⟩
    let calls := [Call.insert ⟨Box.fullSpace, 0⟩,
      .insertAll [⟨low, 10⟩, ⟨flat, 20⟩, ⟨high, 30⟩]]
    let t := runCalls (empty 2 (by decide)) calls
    t.entries.Perm [⟨low, 10⟩, ⟨high, 30⟩] ∧ t.length = 2 ∧
      t.accepts ⟨flat, 40⟩ = false ∧ t.insert ⟨flat, 40⟩ = t := by
  intro low high flat calls t
  obtain ⟨hheld, hperm, hlength, haccepts, hrefused, -⟩ :=
    acceptance_after_calls 2 (by decide) calls
  have halike : alike (calls.flatMap Call.entries) = [⟨low, 10⟩, ⟨high, 30⟩] := by decide
  rw [hheld, halike] at hperm hlength haccepts
  have hflat : t.accepts ⟨flat, 40⟩ = false := by
    rw [← Bool.not_eq_true]
    refine fun h => absurd (((haccepts _).mp h).2 ⟨low, 10⟩ rfl) (by decide)
  exact ⟨hperm, hlength, hflat, hrefused _ hflat⟩

end RTree

end SpatialSegment
