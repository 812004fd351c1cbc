/-!
# Calls one after another

What a system answers to calls that may change its state, and the state they leave. Where every call
is answered alike from related states and keeps them related, so is every row of calls.
-/

namespace SpatialSegment

namespace Calls

variable {σ τ κ α : Type}

/-- The answers to calls, from a state on. -/
def answers (call : σ → κ → α × σ) (s : σ) : List κ → List α
  | [] => []
  | c :: rest => (call s c).1 :: answers call (call s c).2 rest

/-- The state that calls leave. -/
def stateAfter (call : σ → κ → α × σ) (s : σ) : List κ → σ
  | [] => s
  | c :: rest => stateAfter call (call s c).2 rest

/-- What every call keeps, calls one after another keep. -/
theorem stateAfter_keeps {I : σ → Prop} {call : σ → κ → α × σ} {s : σ}
    (keeps : ∀ s c, I s → I (call s c).2) (h : I s) (calls : List κ) :
    I (stateAfter call s calls) := by
  induction calls generalizing s with
  | nil => exact h
  | cons c calls ih => exact ih (keeps s c h)

/-- Where one call among them leads to what every call keeps, so do the calls. -/
theorem stateAfter_of_mem {I J : σ → Prop} {call : σ → κ → α × σ} {s : σ} {c : κ}
    (keeps : ∀ s c, I s → I (call s c).2) (leads : ∀ s, I s → J (call s c).2)
    (keeps' : ∀ s c, J s → J (call s c).2) (h : I s) {calls : List κ} (hmem : c ∈ calls) :
    J (stateAfter call s calls) := by
  induction calls generalizing s with
  | nil => cases hmem
  | cons c' calls ih =>
    rcases List.mem_cons.mp hmem with rfl | hmem
    · exact stateAfter_keeps keeps' (leads s h) calls
    · exact ih (keeps s c' h) hmem

/-- From related states a call gets one answer and leads to related states. -/
def Alike (related : σ → τ → Prop) (call : σ → κ → α × σ) (call' : τ → κ → α × τ) : Prop :=
  ∀ s t c, related s t → (call s c).1 = (call' t c).1 ∧ related (call s c).2 (call' t c).2

variable {related : σ → τ → Prop} {call : σ → κ → α × σ} {call' : τ → κ → α × τ} {s : σ} {t : τ}

theorem Alike.answers_eq (alike : Alike related call call') (h : related s t) (calls : List κ) :
    answers call s calls = answers call' t calls := by
  induction calls generalizing s t with
  | nil => rfl
  | cons c calls ih =>
    obtain ⟨hanswer, hrelated⟩ := alike s t c h
    rw [answers, answers, hanswer, ih hrelated]

theorem Alike.stateAfter (alike : Alike related call call') (h : related s t) (calls : List κ) :
    related (stateAfter call s calls) (Calls.stateAfter call' t calls) := by
  induction calls generalizing s t with
  | nil => exact h
  | cons c calls ih => exact ih (alike s t c h).2

end Calls

end SpatialSegment
