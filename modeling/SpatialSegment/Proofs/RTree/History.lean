import SpatialSegment.Proofs.RTree.Sound

/-!
# Histories of an index

Calls insert one entry or several. Whatever the calls, the index stays sound and holds the entries
that it took.
-/

namespace SpatialSegment

namespace RTree

/-- A call that adds to an index. -/
inductive Call where
  | insert (e : Entry)
  | insertAll (entries : List Entry)

/-- The entries of a call, in order. -/
def Call.entries : Call → List Entry
  | .insert e => [e]
  | .insertAll entries => entries

/-- The index after a call. -/
def Call.run (t : RTree) : Call → RTree
  | .insert e => t.insert e
  | .insertAll entries => (t.insertAll entries).1

def runCalls (t : RTree) (calls : List Call) : RTree := calls.foldl Call.run t

/-- Those of the entries that an index takes, when they come one after another. -/
def taken (t : RTree) : List Entry → List Entry
  | [] => []
  | e :: entries =>
    if t.accepts e then e :: taken (t.insert e) entries else taken (t.insert e) entries

section

variable {t : RTree}

theorem insert_of_not_accepts {e : Entry} (h : t.accepts e = false) : t.insert e = t := by
  rw [insert, h]
  rfl

theorem place_eq_insert {e : Entry} (sound : Sound t) (h : t.accepts e = true) :
    t.place e = some (t.insert e) := by
  obtain ⟨t', hplace, -, -⟩ := sound.exists_place h
  rw [insert, if_pos h, hplace]
  rfl

theorem maxNodeSize_settle (t : RTree) (i : Nat) : (t.settle i).maxNodeSize = t.maxNodeSize := by
  unfold settle
  split
  · split <;> rfl
  · rfl

theorem maxNodeSize_insert (t : RTree) (e : Entry) :
    (t.insert e).maxNodeSize = t.maxNodeSize := by
  rw [insert]
  split
  · rw [place]
    cases t.nodes.descend e.box rootPosition with
    | none => rfl
    | some i =>
      cases h : Arena.refitUp (t.nodes.modify i (·.push e)) i with
      | none => simp [h]
      | some nodes => simp [h, maxNodeSize_settle]
  · rfl

theorem maxNodeSize_foldl_insert (t : RTree) (entries : List Entry) :
    (entries.foldl RTree.insert t).maxNodeSize = t.maxNodeSize := by
  induction entries generalizing t with
  | nil => rfl
  | cons e entries ih => rw [List.foldl_cons, ih, maxNodeSize_insert]

theorem Sound.insert (sound : Sound t) (e : Entry) :
    Sound (t.insert e) ∧ (t.insert e).entries.Perm (t.entries ++ taken t [e]) := by
  cases h : t.accepts e with
  | false => simpa [insert_of_not_accepts h, taken, h] using sound
  | true =>
    obtain ⟨t', hplace, hsound, hperm⟩ := sound.exists_place h
    rw [place_eq_insert sound h] at hplace
    cases hplace
    refine ⟨hsound, ?_⟩
    simpa [taken, h] using hperm

theorem taken_cons (t : RTree) (e : Entry) (entries : List Entry) :
    taken t (e :: entries) = taken t [e] ++ taken (t.insert e) entries := by
  cases h : t.accepts e <;> simp [taken, h]

/-- The first entry is alone in the root. -/
theorem insert_empty {maxNodeSize : Nat} (two_le : 2 ≤ maxNodeSize) {e : Entry}
    (h : e.box.isFullSpace = false) :
    (empty maxNodeSize two_le).insert e =
      ⟨[⟨0, e.box, none, .leaf [e]⟩], maxNodeSize, 1, 1, two_le⟩ := by
  have haccepts : (empty maxNodeSize two_le).accepts e = true := by
    rw [accepts, h]
    rfl
  have hdescend : (empty maxNodeSize two_le).nodes.descend e.box rootPosition =
      some rootPosition :=
    Arena.descend_of_leaf (n := ⟨0, Box.fullSpace, none, .leaf []⟩) rfl rfl _
  have hrefit : Arena.refitUp ((empty maxNodeSize two_le).nodes.modify rootPosition (·.push e))
      rootPosition = some [⟨0, e.box, none, .leaf [e]⟩] := Arena.refitUp_of_root rfl rfl
  have hplace : (empty maxNodeSize two_le).place e =
      some ⟨[⟨0, e.box, none, .leaf [e]⟩], maxNodeSize, 1, 1, two_le⟩ := by
    simp only [place, hdescend, Option.bind_eq_bind, Option.bind_some, hrefit, Option.pure_def,
      Option.some.injEq]
    rw [settle_of_leaf (n := ⟨0, e.box, none, .leaf [e]⟩) rfl rfl]
    exact if_pos (show 1 ≤ maxNodeSize by omega)
  rw [insert, if_pos haccepts, hplace]
  rfl

/-- The index is sound after any entries, and holds those that it took. -/
theorem Sound.foldl_insert (sound : Sound t) (entries : List Entry) :
    Sound (entries.foldl RTree.insert t) ∧
      (entries.foldl RTree.insert t).entries.Perm (t.entries ++ taken t entries) := by
  induction entries generalizing t with
  | nil => simpa [taken] using sound
  | cons e entries ih =>
    obtain ⟨hsound, hperm⟩ := sound.insert e
    obtain ⟨hsound', hperm'⟩ := ih hsound
    refine ⟨hsound', hperm'.trans ?_⟩
    rw [taken_cons, ← List.append_assoc]
    exact hperm.append_right _

theorem insertAll_eq (t : RTree) (entries : List Entry) :
    (t.insertAll entries).1 = entries.foldl RTree.insert t := by
  have hfold : ∀ (es : List Entry) (s : RTree × Bool),
      (es.foldl (fun s e => (s.1.insert e, s.1.accepts e && s.2)) s).1 =
        es.foldl RTree.insert s.1 := by
    intro es
    induction es with
    | nil => exact fun _ => rfl
    | cons e es ih => exact fun s => ih _
  exact hfold entries (t, true)

theorem taken_sublist (t : RTree) (entries : List Entry) : (taken t entries).Sublist entries := by
  induction entries generalizing t with
  | nil => exact .slnil
  | cons e entries ih =>
    rw [taken]
    split
    · exact (ih _).cons_cons e
    · exact (ih _).cons e

/-- All entries have been taken exactly if none of them is missing. -/
theorem insertAll_all_iff {entries : List Entry} :
    (t.insertAll entries).2 = true ↔ taken t entries = entries := by
  have hfold : ∀ (es : List Entry) (s : RTree × Bool),
      (es.foldl (fun s e => (s.1.insert e, s.1.accepts e && s.2)) s).2 = true ↔
        s.2 = true ∧ taken s.1 es = es := by
    intro es
    induction es with
    | nil => exact fun s => ⟨fun hall => ⟨hall, rfl⟩, And.left⟩
    | cons e es ih =>
      intro s
      refine (ih _).trans ?_
      have hle := (taken_sublist (s.1.insert e) es).length_le
      cases haccepts : s.1.accepts e with
      | true => simp [taken, haccepts]
      | false =>
        have hne : taken (s.1.insert e) es ≠ e :: es := by
          intro heq
          rw [heq, List.length_cons] at hle
          omega
        simp [taken, haccepts, hne]
  exact (hfold entries (t, true)).trans (and_iff_right rfl)

/-- An index that has taken all entries holds them and those that it held before. -/
theorem Sound.insertAll (sound : Sound t) {entries : List Entry} {full : RTree}
    (h : t.insertAll entries = (full, true)) :
    Sound full ∧ full.entries.Perm (t.entries ++ entries) := by
  have hfull : full = entries.foldl RTree.insert t := by
    rw [← insertAll_eq, h]
  have htaken := insertAll_all_iff.mp (congrArg Prod.snd h)
  obtain ⟨hsound, hperm⟩ := sound.foldl_insert entries
  rw [htaken, ← hfull] at hperm
  exact ⟨hfull ▸ hsound, hperm⟩

theorem runCalls_eq (t : RTree) (calls : List Call) :
    runCalls t calls = (calls.flatMap Call.entries).foldl RTree.insert t := by
  rw [runCalls]
  induction calls generalizing t with
  | nil => rfl
  | cons call calls ih =>
    rw [List.foldl_cons, ih, List.flatMap_cons, List.foldl_append]
    congr 1
    cases call with
    | insert e => rfl
    | insertAll entries => exact insertAll_eq t entries

theorem WellFormed.covered_of_dimension (wf : WellFormed t) {d : Nat}
    (h : t.dimension? = some d) : Arena.Covered t.nodes d := by
  obtain hempty | ⟨d', covered⟩ := wf.boxes
  · have hbox : t.box = Box.fullSpace := by
      rw [box, hempty]
      rfl
    rw [dimension?, hbox] at h
    cases h
  · rw [dimension?_of_covered wf covered, Option.some.injEq] at h
    exact h ▸ covered

theorem Sound.dimension?_insert (sound : Sound t) {e : Entry} (h : t.accepts e = true) :
    (t.insert e).dimension? = some e.box.dimension := by
  obtain ⟨hsound, hperm⟩ := sound.insert e
  have hmem : e ∈ (t.insert e).entries := by
    refine hperm.symm.subset (List.mem_append_right _ ?_)
    simp [taken, h]
  obtain ⟨n, hn, he⟩ := List.mem_flatMap.mp hmem
  obtain ⟨i, hi⟩ := List.getElem?_of_mem hn
  have hsize : n.size ≠ 0 := by
    have hlength := List.length_pos_of_mem he
    unfold Node.entries at hlength
    unfold Node.size
    split at hlength
    · exact Nat.ne_of_gt hlength
    · cases hlength
  obtain ⟨d, covered⟩ := hsound.covered hi hsize
  rw [dimension?_of_covered hsound.toWellFormed covered, covered.filled.entries hi e he]

/-- An index with entries takes those that are of its dimension. -/
theorem Sound.taken_eq_filter (sound : Sound t) {d : Nat} (h : t.dimension? = some d)
    (entries : List Entry) : taken t entries = entries.filter fun e => e.box.dimension == d := by
  induction entries generalizing t with
  | nil => rfl
  | cons e entries ih =>
    have haccepts := accepts_iff_of_covered sound.toWellFormed
      (sound.covered_of_dimension h) e
    rw [taken, List.filter_cons]
    by_cases hd : e.box.dimension = d
    · have hinsert := sound.dimension?_insert (haccepts.mpr hd)
      rw [if_pos (haccepts.mpr hd), if_pos (by simpa using hd), ih (sound.insert e).1
        (hinsert.trans (congrArg some hd))]
    · have hrefused : t.accepts e = false := by
        rw [← Bool.not_eq_true, haccepts]
        exact hd
      rw [if_neg (by simp [hrefused]), if_neg (by simpa using hd), insert_of_not_accepts hrefused,
        ih sound h]

end

end RTree

end SpatialSegment
