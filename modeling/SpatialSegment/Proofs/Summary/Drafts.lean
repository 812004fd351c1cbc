import Mathlib.Order.Bounds.Basic
import SpatialSegment.Calls
import SpatialSegment.Summary.Calls
import SpatialSegment.Proofs.Segment.Dimensions

/-!
# What a growing summary has taken in

A draft holds no tuples, only their number, their extreme times and their box. Along every row of
offers these are the ones of the tuples that it has taken, whatever it has refused in between; it
asks its box alone whether to take a tuple, and that comes to asking the first of these tuples that
has a dimension. Which tuples are taken decides the summary, their order does not, but for the zeros
in the box.
-/

namespace SpatialSegment

namespace Summary

variable {d d' : Draft} {t : Tuple} {held tuples tuples' : List Tuple} {s s' : Summary}

/-! ## Times -/

theorem toInt_min (a b : Int64) : (min a b).toInt = min a.toInt b.toInt := by
  change (if a ≤ b then a else b).toInt = if a.toInt ≤ b.toInt then a.toInt else b.toInt
  simp only [Int64.le_iff_toInt_le]
  split <;> rfl

theorem toInt_max (a b : Int64) : (max a b).toInt = max a.toInt b.toInt := by
  change (if a ≤ b then b else a).toInt = if a.toInt ≤ b.toInt then b.toInt else a.toInt
  simp only [Int64.le_iff_toInt_le]
  split <;> rfl

/-- The numbers that a field of the tuples has. -/
def timesOf (field : Tuple → Int64) (tuples : List Tuple) : Set Int :=
  {time | ∃ t ∈ tuples, (field t).toInt = time}

theorem mem_timesOf {field : Tuple → Int64} {time : Int} :
    time ∈ timesOf field tuples ↔ ∃ t ∈ tuples, (field t).toInt = time :=
  Iff.rfl

theorem timesOf_singleton (field : Tuple → Int64) (t : Tuple) :
    timesOf field [t] = {(field t).toInt} := by
  ext time
  rw [mem_timesOf, Set.mem_singleton_iff]
  constructor
  · rintro ⟨t', ht', rfl⟩
    rw [List.mem_singleton.mp ht']
  · rintro rfl
    exact ⟨t, List.mem_singleton_self t, rfl⟩

theorem timesOf_append_singleton (field : Tuple → Int64) (tuples : List Tuple) (t : Tuple) :
    timesOf field (tuples ++ [t]) = insert (field t).toInt (timesOf field tuples) := by
  ext time
  simp only [mem_timesOf, Set.mem_insert_iff, List.mem_append, List.mem_singleton]
  constructor
  · rintro ⟨t', ht' | rfl, rfl⟩
    · exact .inr ⟨t', ht', rfl⟩
    · exact .inl rfl
  · rintro (rfl | ⟨t', ht', rfl⟩)
    · exact ⟨t, .inr rfl, rfl⟩
    · exact ⟨t', .inl ht', rfl⟩

theorem timesOf_perm (hperm : tuples'.Perm tuples) (field : Tuple → Int64) :
    timesOf field tuples' = timesOf field tuples := by
  ext time
  simp only [mem_timesOf, hperm.mem_iff]

/-- The oldest and the newest version of the tuples and the latest time of receipt. -/
structure Times.Spans (times : Times) (tuples : List Tuple) : Prop where
  oldestVersion : IsLeast (timesOf Tuple.version tuples) times.oldestVersion.toInt
  newestVersion : IsGreatest (timesOf Tuple.version tuples) times.newestVersion.toInt
  newestReceived : IsGreatest (timesOf Tuple.received tuples) times.newestReceived.toInt

theorem Times.spans_ofTuple (t : Tuple) : (Times.ofTuple t).Spans [t] := by
  constructor
  · rw [timesOf_singleton]
    exact isLeast_singleton
  · rw [timesOf_singleton]
    exact isGreatest_singleton
  · rw [timesOf_singleton]
    exact isGreatest_singleton

theorem Times.Spans.add {times : Times} (spans : times.Spans tuples) (t : Tuple) :
    (times.add t).Spans (tuples ++ [t]) := by
  constructor
  · rw [timesOf_append_singleton, Times.add, toInt_min, min_comm]
    exact spans.oldestVersion.insert t.version.toInt
  · rw [timesOf_append_singleton, Times.add, toInt_max, max_comm]
    exact spans.newestVersion.insert t.version.toInt
  · rw [timesOf_append_singleton, Times.add, toInt_max, max_comm]
    exact spans.newestReceived.insert t.received.toInt

theorem Times.Spans.ne_nil {times : Times} (spans : times.Spans tuples) : tuples ≠ [] := by
  rintro rfl
  obtain ⟨⟨t, ht, -⟩, -⟩ := spans.oldestVersion
  cases ht

/-- Times of the same tuples are the same. -/
theorem Times.Spans.unique {times times' : Times} (spans : times.Spans tuples)
    (spans' : times'.Spans tuples') (hperm : tuples'.Perm tuples) : times' = times := by
  obtain ⟨oldest, newest, received⟩ := spans
  obtain ⟨oldest', newest', received'⟩ := spans'
  rw [timesOf_perm hperm] at oldest' newest' received'
  have holdest := Int64.toInt_inj.mp (oldest'.unique oldest)
  have hnewest := Int64.toInt_inj.mp (newest'.unique newest)
  have hreceived := Int64.toInt_inj.mp (received'.unique received)
  cases times
  cases times'
  simp_all

/-! ## One tuple -/

/-- A refused tuple changes nothing, a tuple that is taken leads to the draft with it. -/
theorem Draft.offer_eq (d : Draft) (t : Tuple) : d.offer t =
    match d.add t with
    | .ok d' => (.ok (), d')
    | .error cause => (.error cause, d) := by
  rw [add]
  -- the first step is the only one that can fail, and nothing is changed before it
  change (ExceptT.bindCont _ (d.box.merge t.box) : StateM Draft (Except ArgumentFault Unit)) d = _
  cases d.box.merge t.box <;> rfl

theorem Draft.offer_of_ok (h : d.add t = .ok d') : d.offer t = (.ok (), d') := by
  rw [offer_eq, h]

theorem Draft.offer_of_error {cause : ArgumentFault} (h : d.add t = .error cause) :
    d.offer t = (.error cause, d) := by
  rw [offer_eq, h]

theorem Draft.snd_offer_of_error {cause : ArgumentFault} (h : (d.offer t).1 = .error cause) :
    (d.offer t).2 = d := by
  rw [offer_eq] at h ⊢
  cases hadd : d.add t with
  | ok d' =>
    rw [hadd] at h
    cases h
  | error cause' => rfl

/-- A tuple is refused exactly if its box has none in common with that of the draft. -/
theorem Draft.offer_eq_error_iff {cause : ArgumentFault} :
    (d.offer t).1 = .error cause ↔ d.box.merge t.box = .error cause := by
  rw [offer_eq, add]
  cases d.box.merge t.box with
  | ok box =>
    constructor
    · rintro ⟨⟩
    · rintro ⟨⟩
  | error cause' =>
    change Except.error cause' = Except.error cause ↔ Except.error cause' = Except.error cause
    rw [Except.error.injEq, Except.error.injEq]

/-! ## Tuples one after another -/

/-- Those of the tuples that the draft takes when they are offered one after another. -/
def Draft.taken (d : Draft) : List Tuple → List Tuple
  | [] => []
  | t :: tuples =>
    match d.offer t with
    | (.ok (), d) => t :: taken d tuples
    | (.error _, d) => taken d tuples

/-- The draft is the one of these tuples. -/
structure Draft.Holds (d : Draft) (held : List Tuple) : Prop where
  count : d.tuples = UInt64.ofNat held.length
  times : match d.times with
    | none => held = []
    | some times => times.Spans held
  box : Box.covering (held.map Tuple.box) = .ok d.box

theorem Draft.holds_empty : Draft.empty.Holds [] :=
  ⟨rfl, rfl, rfl⟩

/-- A tuple that is taken is held besides. -/
theorem Draft.Holds.add (holds : d.Holds held) (h : d.add t = .ok d') : d'.Holds (held ++ [t]) := by
  rw [Draft.add] at h
  obtain ⟨box, hmerge, h⟩ := bind_eq_ok.mp h
  cases h
  obtain ⟨hcount, htimes, hbox⟩ := holds
  constructor
  · rw [List.length_append, List.length_singleton, UInt64.ofNat_add, hcount]
    rfl
  · cases hspans : d.times with
    | none =>
      rw [hspans] at htimes
      obtain rfl := htimes
      exact Times.spans_ofTuple t
    | some times =>
      rw [hspans] at htimes
      exact Times.Spans.add htimes t
  · rw [List.map_append]
    exact Box.covering_append_iff.mpr ⟨d.box, t.box, hbox, rfl, hmerge⟩

theorem Draft.Holds.stateAfter (holds : d.Holds held) (tuples : List Tuple) :
    (Calls.stateAfter Draft.offer d tuples).Holds (held ++ d.taken tuples) := by
  induction tuples generalizing d held with
  | nil =>
    rw [taken, List.append_nil]
    exact holds
  | cons t tuples ih =>
    rw [Calls.stateAfter, taken]
    cases hadd : d.add t with
    | ok d' =>
      rw [offer_of_ok hadd]
      have hheld := ih (holds.add hadd)
      rwa [List.append_assoc] at hheld
    | error cause =>
      rw [offer_of_error hadd]
      exact ih holds

/-- A tuple is refused exactly if the first tuple held that has a dimension has another one. -/
theorem Draft.Holds.offer_eq_error_iff (holds : d.Holds held) {cause : ArgumentFault} :
    (d.offer t).1 = .error cause ↔ t.box.isFullSpace = false ∧
      ∃ first ∈ (held.map Tuple.box).find? fun b => !b.isFullSpace,
        first.dimension ≠ t.box.dimension ∧
          cause = .mixedDimensions first.dimension t.box.dimension := by
  rw [Draft.offer_eq_error_iff, Box.merge_eq_error_iff]
  constructor
  · rintro ⟨hproper, ht, hne, rfl⟩
    obtain ⟨first, hfirst, hdim⟩ := (Box.dimension_of_covering holds.box _).mp ⟨hproper, rfl⟩
    rw [← hdim] at hne ⊢
    exact ⟨ht, first, hfirst, hne, rfl⟩
  · rintro ⟨ht, first, hfirst, hne, rfl⟩
    obtain ⟨hproper, hdim⟩ :=
      (Box.dimension_of_covering holds.box first.dimension).mpr ⟨first, hfirst, rfl⟩
    rw [← hdim] at hne ⊢
    exact ⟨hproper, ht, hne, rfl⟩

/-! ## Summaries -/

/-- The summary tells number, extreme times and box of the tuples. -/
structure Summarizes (s : Summary) (tuples : List Tuple) : Prop where
  count : s.tuples = UInt64.ofNat tuples.length
  times : tuples ≠ [] →
    Times.Spans ⟨s.oldestVersion, s.newestVersion, s.newestReceived⟩ tuples
  zeros : tuples = [] → s.oldestVersion = 0 ∧ s.newestVersion = 0 ∧ s.newestReceived = 0
  box : Box.covering (tuples.map Tuple.box) = .ok s.box

theorem Draft.Holds.finish (holds : d.Holds held) : Summarizes d.finish held := by
  obtain ⟨hcount, htimes, hbox⟩ := holds
  unfold Draft.finish
  cases hspans : d.times with
  | none =>
    rw [hspans] at htimes
    exact ⟨hcount, fun hne => (hne htimes).elim, fun _ => ⟨rfl, rfl, rfl⟩, hbox⟩
  | some times =>
    rw [hspans] at htimes
    exact ⟨hcount, fun _ => htimes, fun hnil => (Times.Spans.ne_nil htimes hnil).elim, hbox⟩

theorem Summarizes.dimension_le (hs : Summarizes s tuples) {n : Nat}
    (h : ∀ t ∈ tuples, t.box.dimension ≤ n) : s.box.dimension ≤ n := by
  obtain ⟨-, hbox⟩ := Box.covering_eq_ok_iff.mp hs.box
  rw [← hbox]
  exact Box.dimension_unionAll_le (List.forall_mem_map.mpr h)

/-- Summaries of the same tuples in another order differ at most in the zeros of their boxes. -/
theorem Summarizes.perm (hs : Summarizes s tuples) (hs' : Summarizes s' tuples')
    (hperm : tuples'.Perm tuples) :
    s' = { s with box := s'.box } ∧ s'.box.sameNumbers s.box = true := by
  have hcount : s'.tuples = s.tuples := by rw [hs'.count, hs.count, hperm.length_eq]
  have htimes : s'.oldestVersion = s.oldestVersion ∧ s'.newestVersion = s.newestVersion ∧
      s'.newestReceived = s.newestReceived := by
    by_cases hnil : tuples = []
    · obtain ⟨holdest, hnewest, hreceived⟩ := hs.zeros hnil
      obtain ⟨holdest', hnewest', hreceived'⟩ := hs'.zeros (List.perm_nil.mp (hnil ▸ hperm))
      exact ⟨holdest'.trans holdest.symm, hnewest'.trans hnewest.symm,
        hreceived'.trans hreceived.symm⟩
    · have hnil' : tuples' ≠ [] := fun h => hnil (List.nil_perm.mp (h ▸ hperm))
      simpa using Times.Spans.unique (hs.times hnil) (hs'.times hnil') hperm
  obtain ⟨holdest, hnewest, hreceived⟩ := htimes
  constructor
  · cases s
    cases s'
    simp_all
  · obtain ⟨box, hbox, hsame⟩ := Box.exists_covering (fun b => (hperm.map Tuple.box).mem_iff) hs.box
    rw [hs'.box] at hbox
    cases hbox
    exact hsame

/-! ## No tuple refused -/

/-- Every tuple is taken exactly if the tuples can be added one after another. -/
theorem foldlM_add_eq_ok_iff : tuples.foldlM Draft.add d = .ok d' ↔
    (∀ answer ∈ Calls.answers Draft.offer d tuples, answer = .ok ()) ∧
      Calls.stateAfter Draft.offer d tuples = d' := by
  induction tuples generalizing d with
  | nil => simp [Calls.answers, Calls.stateAfter, pure, Except.pure]
  | cons t tuples ih =>
    rw [List.foldlM_cons, Calls.answers, Calls.stateAfter, List.forall_mem_cons]
    cases hadd : d.add t with
    | ok next =>
      rw [Draft.offer_of_ok hadd, ok_bind, ih]
      simp
    | error cause =>
      rw [Draft.offer_of_error hadd]
      constructor
      · intro h
        cases h
      · rintro ⟨⟨h, -⟩, -⟩
        cases h

theorem Draft.taken_eq_self
    (h : ∀ answer ∈ Calls.answers Draft.offer d tuples, answer = .ok ()) :
    d.taken tuples = tuples := by
  induction tuples generalizing d with
  | nil => rfl
  | cons t tuples ih =>
    rw [Calls.answers, List.forall_mem_cons] at h
    cases hadd : d.add t with
    | ok next =>
      rw [offer_of_ok hadd] at h
      rw [taken, offer_of_ok hadd]
      exact congrArg (t :: ·) (ih h.2)
    | error cause =>
      rw [offer_of_error hadd] at h
      cases h.1

/-- The summary of tuples is what is left of a draft that has taken each of them. -/
theorem ofTuples_eq_ok_iff : ofTuples tuples = .ok s ↔
    (∀ answer ∈ Calls.answers Draft.offer Draft.empty tuples, answer = .ok ()) ∧
      (Calls.stateAfter Draft.offer Draft.empty tuples).finish = s := by
  rw [ofTuples]
  constructor
  · intro h
    cases hfold : tuples.foldlM Draft.add Draft.empty with
    | ok d =>
      rw [hfold] at h
      cases h
      obtain ⟨hanswers, rfl⟩ := foldlM_add_eq_ok_iff.mp hfold
      exact ⟨hanswers, rfl⟩
    | error cause =>
      rw [hfold] at h
      cases h
  · rintro ⟨hanswers, rfl⟩
    rw [foldlM_add_eq_ok_iff.mpr ⟨hanswers, rfl⟩]
    rfl

theorem summarizes_of_ofTuples (h : ofTuples tuples = .ok s) : Summarizes s tuples := by
  obtain ⟨hanswers, rfl⟩ := ofTuples_eq_ok_iff.mp h
  have holds := Draft.holds_empty.stateAfter tuples
  rw [List.nil_append, Draft.taken_eq_self hanswers] at holds
  exact holds.finish

/-- If each tuple is taken, each is in any other order, and the summary is the same as numbers. -/
theorem ofTuples_perm (h : ofTuples tuples = .ok s) (hperm : tuples'.Perm tuples) :
    ∃ s', ofTuples tuples' = .ok s' ∧ s' = { s with box := s'.box } ∧
      s'.box.sameNumbers s.box = true := by
  have hdims : Segment.SharedDimension tuples := Segment.exists_summary_iff.mp ⟨s, h⟩
  obtain ⟨s', h'⟩ :=
    Segment.exists_summary_iff.mpr ((Segment.SharedDimension.perm hperm).mpr hdims)
  have hsame := (summarizes_of_ofTuples h).perm (summarizes_of_ofTuples h') hperm
  exact ⟨s', h', hsame⟩

end Summary

end SpatialSegment
