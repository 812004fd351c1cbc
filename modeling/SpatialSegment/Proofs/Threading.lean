import Mathlib.Tactic.Common

/-!
# Steps that thread a state

What steps answer from every state of an invariant, an error included, and that they keep the
invariant. The answer must not depend on the state.
-/

namespace SpatialSegment

variable {ε σ α β : Type} {I : σ → Prop}

/-- From every state of the invariant the steps end in the result and keep the invariant. -/
def Answers (I : σ → Prop) (steps : ExceptT ε (StateM σ) α) (result : Except ε α) : Prop :=
  ∀ s, I s → (steps.run.run s).1 = result ∧ I (steps.run.run s).2

theorem run_bind (steps : ExceptT ε (StateM σ) α) (next : α → ExceptT ε (StateM σ) β) (s : σ) :
    (steps >>= next).run.run s =
      (match (steps.run.run s).1 with
        | .ok a => (next a).run.run (steps.run.run s).2
        | .error cause => (.error cause, (steps.run.run s).2)) := by
  change (ExceptT.bindCont next (steps.run.run s).1).run (steps.run.run s).2 = _
  cases (steps.run.run s).1 <;> rfl

namespace Answers

theorem pure (a : α) : Answers (ε := ε) I (Pure.pure a) (.ok a) := by
  intro s hs
  exact ⟨rfl, hs⟩

/-- The steps after a step go on from its answer. -/
theorem bind {steps : ExceptT ε (StateM σ) α} {next : α → ExceptT ε (StateM σ) β}
    {result : Except ε α} {further : α → Except ε β} (hsteps : Answers I steps result)
    (hnext : ∀ a, result = .ok a → Answers I (next a) (further a)) :
    Answers I (steps >>= next) (result >>= further) := by
  intro s hs
  obtain ⟨hresult, hkept⟩ := hsteps s hs
  rw [run_bind, hresult]
  cases result with
  | error cause => exact ⟨rfl, hkept⟩
  | ok a => exact hnext a rfl _ hkept

/-- Steps that have given a value go on from it. -/
theorem ok_bind {steps : ExceptT ε (StateM σ) α} {next : α → ExceptT ε (StateM σ) β} {a : α}
    {result : Except ε β} (hsteps : Answers I steps (.ok a)) (hnext : Answers I (next a) result) :
    Answers I (steps >>= next) result := by
  have hbind : Answers I (steps >>= next) ((Except.ok a : Except ε α) >>= fun _ => result) := by
    refine hsteps.bind fun a' ha => ?_
    cases ha
    exact hnext
  exact hbind

/-- Steps that look at the state first. -/
theorem get {next : σ → ExceptT ε (StateM σ) α} {result : Except ε α}
    (h : ∀ s, I s → Answers I (next s) result) :
    Answers I (MonadState.get >>= next) result :=
  fun s hs => h s hs s hs

end Answers

/-- The steps keep the invariant, whatever they answer. -/
def Preserves (I : σ → Prop) (steps : ExceptT ε (StateM σ) α) : Prop :=
  ∀ s, I s → I (steps.run.run s).2

namespace Preserves

theorem pure (a : α) : Preserves (ε := ε) I (Pure.pure a) :=
  fun _ hs => hs

theorem bind {steps : ExceptT ε (StateM σ) α} {next : α → ExceptT ε (StateM σ) β}
    (hsteps : Preserves I steps) (hnext : ∀ a, Preserves I (next a)) :
    Preserves I (steps >>= next) := by
  intro s hs
  have hkept := hsteps s hs
  rw [run_bind]
  cases (steps.run.run s).1 with
  | error cause => exact hkept
  | ok a => exact hnext a _ hkept

/-- Steps that look at the state first. -/
theorem get {next : σ → ExceptT ε (StateM σ) α} (h : ∀ s, Preserves I (next s)) :
    Preserves I (MonadState.get >>= next) :=
  fun s hs => h s s hs

end Preserves

theorem run_bind_of_ok {steps : ExceptT ε (StateM σ) α} {next : α → ExceptT ε (StateM σ) β} {a : α}
    {s s' : σ} (h : steps.run.run s = (.ok a, s')) :
    (steps >>= next).run.run s = (next a).run.run s' := by
  rw [run_bind, h]

/-- Steps that have given a value gave one before. -/
theorem exists_of_bind_ok {steps : ExceptT ε (StateM σ) α} {next : α → ExceptT ε (StateM σ) β}
    {b : β} {s s' : σ} (h : (steps >>= next).run.run s = (.ok b, s')) :
    ∃ a s'', steps.run.run s = (.ok a, s'') ∧ (next a).run.run s'' = (.ok b, s') := by
  rw [run_bind] at h
  cases hsteps : steps.run.run s with
  | mk result s'' =>
    rw [hsteps] at h
    cases result with
    | error cause => cases h
    | ok a => exact ⟨a, s'', rfl, h⟩

end SpatialSegment
