import SpatialSegment.Proofs.Table

/-!
# Where tables lie

A table lies two directories below the data, in the directory of its group, unless one of the two
is called by a single dot. A dot is a name like any other, but in a path it is no step: such a table
lies higher up. Two tables lie in one place only if a dot and a name have changed places in them.

Nothing is said of links, and of the base no more than where it leads.
-/

namespace SpatialSegment

/-- The names that a part of a path which does not go up adds to a location. -/
def stepNames (part : String) : List String := if part = "." then [] else [part]

theorem stepNames_inj {a b : String} : stepNames a = stepNames b ↔ a = b := by
  constructor
  · intro h
    unfold stepNames at h
    by_cases ha : a = "."
    · rw [if_pos ha] at h
      by_cases hb : b = "."
      · exact ha.trans hb.symm
      · rw [if_neg hb] at h
        cases h
    · rw [if_neg ha] at h
      by_cases hb : b = "."
      · rw [if_pos hb] at h
        cases h
      · rw [if_neg hb] at h
        exact List.singleton_inj.mp h
  · rintro rfl
    rfl

namespace Location

def enter (l : Location) (part : String) : Location :=
  { l with names := l.names ++ stepNames part }

theorem enter_of_ne {part : String} (h : part ≠ ".") (l : Location) :
    l.enter part = l.below part := by
  rw [enter, stepNames, if_neg h]
  rfl

end Location

namespace Path

theorem location_join_part {part : String} (isPart : IsPart part) (base : Path) :
    (base.join part).location = base.location.enter part := by
  rw [location, location, steps_join, startsAtRoot_join_part isPart, steps_part isPart,
    List.reverse_append, Location.steps, List.foldr_append]
  by_cases hdot : part = "."
  · rw [if_pos hdot, Location.enter, stepNames, if_pos hdot, List.append_nil]
    rfl
  · rw [if_neg hdot, Location.enter_of_ne hdot]
    rfl

end Path

namespace TableName

variable {n m : TableName}

/-- The names of the directory of a table, below the data. -/
def ownNames (n : TableName) : List String := stepNames n.group ++ stepNames n.tablePart

theorem location_directory (n : TableName) (base : Path) :
    (n.directory base).location =
      { base.location with names := base.location.names ++ "data" :: n.ownNames } := by
  rw [directory, Path.location_join_part n.isPart_tablePart,
    Path.location_join_part (isPart_of_isNamePart n.group_ok), Path.location_join_part isPart_data]
  simp [Location.enter, stepNames, ownNames]

/-- One of the two parts is a dot. -/
def Dotted (n : TableName) : Prop := n.group = "." ∨ n.table = "." ∧ n.region = none

theorem dotted_iff : n.Dotted ↔ n.group = "." ∨ n.tablePart = "." := by
  rw [Dotted, tablePart_eq_iff (by decide)]

theorem ownNames_of_not_dotted (h : ¬ n.Dotted) : n.ownNames = [n.group, n.tablePart] := by
  rw [dotted_iff, not_or] at h
  rw [ownNames, stepNames, stepNames, if_neg h.1, if_neg h.2]
  rfl

theorem length_ownNames_lt (h : n.Dotted) : n.ownNames.length < 2 := by
  have hle : ∀ part, (stepNames part).length ≤ 1 := by
    intro part
    unfold stepNames
    split <;> simp
  have hnone : (stepNames ".").length = 0 := rfl
  have hgroup := hle n.group
  have hpart := hle n.tablePart
  rw [ownNames, List.length_append]
  rcases dotted_iff.mp h with hdot | hdot
  · rw [hdot]
    omega
  · rw [hdot]
    omega

/-- Two tables without regions of which one is called like the group of the other, and one of the
parts is a dot. -/
structure Swapped (n m : TableName) : Prop where
  region_left : n.region = none
  region_right : m.region = none
  group : n.group = m.table
  table : n.table = m.group
  dot : n.group = "." ∨ n.table = "."

theorem tablePart_of_region (h : n.region = none) : n.tablePart = n.table := by
  rw [tablePart, h]

theorem swapped_of_dot (hdot : n.group = ".") (hgroup : n.tablePart = m.group)
    (hpart : m.tablePart = ".") : n.Swapped m := by
  obtain ⟨htable, hregion⟩ :=
    (tablePart_eq_iff (separator_notMem_of_isNamePart m.group_ok)).mp hgroup
  obtain ⟨hdot', hregion'⟩ := (tablePart_eq_iff (by decide)).mp hpart
  exact ⟨hregion, hregion', hdot.trans hdot'.symm, htable, .inl hdot⟩

theorem Swapped.symm (h : n.Swapped m) : m.Swapped n where
  region_left := h.region_right
  region_right := h.region_left
  group := h.table.symm
  table := h.group.symm
  dot := h.dot.symm.imp (h.table.symm.trans ·) (h.group.symm.trans ·)

/-- Where only one group is a dot, the other one takes the place of the table. -/
theorem swapped_of_ownNames (hdot : n.group = ".") (hgroup : m.group ≠ ".")
    (h : n.ownNames = m.ownNames) : n.Swapped m := by
  have hnames : stepNames n.tablePart = m.group :: stepNames m.tablePart := by
    simpa [ownNames, stepNames, hdot, hgroup] using h
  by_cases hpart : n.tablePart = "."
  · rw [hpart] at hnames
    cases hnames
  · rw [stepNames, if_neg hpart, List.cons.injEq] at hnames
    exact swapped_of_dot hdot hnames.1 (stepNames_inj.mp hnames.2.symm)

theorem ownNames_inj : n.ownNames = m.ownNames ↔ n = m ∨ n.Swapped m := by
  constructor
  · intro h
    by_cases hn : n.group = "."
    · by_cases hm : m.group = "."
      · rw [ownNames, ownNames, hn, hm] at h
        exact .inl (eq_of_parts (hn.trans hm.symm) (stepNames_inj.mp h))
      · exact .inr (swapped_of_ownNames hn hm h)
    · by_cases hm : m.group = "."
      · exact .inr (swapped_of_ownNames hm hn h.symm).symm
      · rw [ownNames, ownNames, stepNames, if_neg hn, stepNames.eq_def m.group, if_neg hm,
          List.singleton_append, List.singleton_append, List.cons.injEq] at h
        exact .inl (eq_of_parts h.1 (stepNames_inj.mp h.2))
  · rintro (rfl | swapped)
    · rfl
    · rw [ownNames, ownNames, tablePart_of_region swapped.region_left,
        tablePart_of_region swapped.region_right, ← swapped.group, ← swapped.table]
      rcases swapped.dot with hdot | hdot
      · rw [hdot]
        exact (List.append_nil _).symm
      · rw [hdot]
        exact List.append_nil _

/-- A table lies two directories below the data, in that of its group, exactly if neither is called
by a dot; and two tables lie in one place exactly if they are the same or a dot and a name have
changed places. -/
theorem directory_own_iff (n m : TableName) (base : Path) :
    ((∃ a b, (n.directory base).location = ((base.location.below "data").below a).below b) ↔
      ¬ n.Dotted) ∧
    ((n.directory base).location =
      ((base.location.below "data").below n.group).below n.tablePart ↔ ¬ n.Dotted) ∧
    ((n.directory base).location = (m.directory base).location ↔ n = m ∨ n.Swapped m) := by
  have hbelow : ∀ a b, (n.directory base).location =
      ((base.location.below "data").below a).below b ↔ n.ownNames = [a, b] := by
    intro a b
    rw [location_directory]
    simp [Location.below]
  have hdeep : ∀ a b, n.ownNames = [a, b] → ¬ n.Dotted := by
    intro a b hnames hdotted
    have hlength := length_ownNames_lt hdotted
    rw [hnames] at hlength
    exact Nat.lt_irrefl 2 hlength
  refine ⟨⟨?_, fun h => ⟨_, _, (hbelow _ _).mpr (ownNames_of_not_dotted h)⟩⟩,
    ⟨fun h => hdeep _ _ ((hbelow _ _).mp h), fun h => (hbelow _ _).mpr (ownNames_of_not_dotted h)⟩,
    ?_⟩
  · rintro ⟨a, b, h⟩
    exact hdeep a b ((hbelow a b).mp h)
  · rw [← ownNames_inj, location_directory, location_directory]
    simp

/-- Two names that differ lie in one place, one directory below the data. -/
theorem directories_meet_at_dot :
    ∃ n m : TableName, ofParts "." "t" none = .ok n ∧ ofText "t_." = .ok m ∧ n ≠ m ∧
      (n.directory ⟨"db"⟩).location = (m.directory ⟨"db"⟩).location ∧
      (n.directory ⟨"db"⟩).location = ((Path.mk "db").location.below "data").below "t" := by
  let n : TableName := ⟨".", "t", none, by decide, by decide⟩
  let m : TableName := ⟨"t", ".", none, by decide, by decide⟩
  exact ⟨n, m, ofParts_self n, ofText_text m, by decide, by decide +kernel, by decide +kernel⟩

end TableName

end SpatialSegment
