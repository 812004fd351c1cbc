import SpatialSegment.Error
import SpatialSegment.Proofs.Results

/-!
# Steps of a machine

The reads are written a second time here, for a machine whose words have eight bytes. A sum that is
too large for a word, a difference below zero and a range that a list does not have crash the
machine, and a loop that does not end has no value. Memory for the answers is not counted.

What a read answers is not affected: a checked read ends as the plain one does, or it has crashed or
not ended.
-/

namespace SpatialSegment

/-- Why a machine cannot go on. -/
inductive Crash where
  | overflow
  | underflow
  | panic
deriving DecidableEq, Repr

/-- Steps that end with a value, crash, or do not end. -/
abbrev Machine := ExceptT Crash Option

namespace Machine

variable {α : Type}

/-- A sum that is asked for with care: there is none beyond the words. -/
def sum? (a b : Nat) : Option Nat :=
  if a + b < Word.limit 8 then some (a + b) else none

/-- A product that is asked for with care. -/
def product? (a b : Nat) : Option Nat :=
  if a * b < Word.limit 8 then some (a * b) else none

def add (a b : Nat) : Machine Nat :=
  if a + b < Word.limit 8 then return a + b else throw .overflow

def sub (a b : Nat) : Machine Nat :=
  if b ≤ a then return a - b else throw .underflow

def mul (a b : Nat) : Machine Nat :=
  if a * b < Word.limit 8 then return a * b else throw .overflow

/-- The items from `start` up to `stop`. -/
def range (items : List α) (start stop : Nat) : Machine (List α) :=
  if start ≤ stop ∧ stop ≤ items.length then return (items.drop start).take (stop - start)
  else throw .panic

def item (items : List α) (i : Nat) : Machine α :=
  match items[i]? with
  | some a => return a
  | none => throw .panic

theorem add_eq {a b : Nat} (h : a + b < Word.limit 8) : add a b = pure (a + b) :=
  if_pos h

theorem sub_eq {a b : Nat} (h : b ≤ a) : sub a b = pure (a - b) :=
  if_pos h

theorem mul_eq {a b : Nat} (h : a * b < Word.limit 8) : mul a b = pure (a * b) :=
  if_pos h

theorem range_eq {items : List α} {start stop : Nat} (h : start ≤ stop)
    (inside : stop ≤ items.length) :
    range items start stop = pure ((items.drop start).take (stop - start)) :=
  if_pos ⟨h, inside⟩

theorem range_zero {items : List α} {stop : Nat} (inside : stop ≤ items.length) :
    range items 0 stop = pure (items.take stop) := by
  rw [range_eq (Nat.zero_le stop) inside, List.drop_zero, Nat.sub_zero]

theorem range_all {items : List α} {n : Nat} (h : items.length = n) :
    range items 0 n = pure items := by
  rw [range_zero (Nat.le_of_eq h.symm), List.take_of_length_le (Nat.le_of_eq h)]

theorem item_eq {items : List α} {i : Nat} {a : α} (h : items[i]? = some a) :
    item items i = pure a := by
  rw [item, h]

/-- What comes to its end for all items comes to its end for the list of them. -/
theorem mapM_eq {β : Type} {f : α → Machine β} {g : α → β} {items : List α}
    (h : ∀ a ∈ items, f a = pure (g a)) : items.mapM f = pure (items.map g) := by
  induction items with
  | nil => rfl
  | cons a items ih =>
    obtain ⟨ha, hitems⟩ := List.forall_mem_cons.mp h
    rw [List.mapM_cons, ha, pure_bind, ih hitems, pure_bind, List.map_cons]

end Machine

/-- Steps of a machine that may fail with an error. -/
abbrev Checked (ε : Type) := ExceptT ε Machine

namespace Checked

variable {ε α β : Type}

/-- What certainly comes to its end. -/
def of (result : Except ε α) : Checked ε α :=
  ExceptT.mk (pure result)

theorem of_ok_bind (a : α) (next : α → Checked ε β) : (of (.ok a) >>= next) = next a := rfl

theorem lift_bind (a : α) (next : α → Checked ε β) :
    ((liftM (pure a : Machine α) : Checked ε α) >>= next) = next a := rfl

/-- What certainly comes to its end for all items does so for the list of them. -/
theorem mapM_of {f : α → Checked ε β} {g : α → Except ε β} {items : List α}
    (h : ∀ a ∈ items, f a = of (g a)) : items.mapM f = of (items.mapM g) := by
  induction items with
  | nil => rfl
  | cons a items ih =>
    obtain ⟨ha, hitems⟩ := List.forall_mem_cons.mp h
    rw [List.mapM_cons, List.mapM_cons, ha, ih hitems]
    cases g a with
    | error cause => rfl
    | ok b => cases items.mapM g <;> rfl

theorem map_of (f : α → β) (result : Except ε α) : f <$> of result = of (result.map f) := by
  cases result <;> rfl

/-- The steps after a step go on from its value. -/
theorem bind_eq {steps : Checked ε α} {result : Except ε α} {next : α → Checked ε β}
    {further : α → Except ε β} (h : steps = of result)
    (rest : ∀ a, result = .ok a → next a = of (further a)) :
    (steps >>= next) = of (result >>= further) := by
  subst h
  cases result with
  | error cause => rfl
  | ok a => exact rest a rfl

end Checked

/-! ## Ends of reads -/

/-- Every error is one of the format. -/
def FormatOnly {α : Type} (result : Result α) : Prop :=
  ∀ cause, result = .error cause → cause.isFormat = true

/-- The steps come to their end, which is the result, and fail with an error of the format if they
do. -/
structure EndsAs {α : Type} (steps : Checked SegmentError α) (result : Result α) : Prop where
  steps_eq : steps = Checked.of result
  formatOnly : FormatOnly result

namespace EndsAs

variable {α β : Type} {steps : Checked SegmentError α} {result : Result α}

theorem ok (a : α) : EndsAs (pure a) (.ok a) := by
  refine ⟨rfl, ?_⟩
  intro cause h
  cases h

theorem refuse (path : Path) (cause : FormatFault) :
    EndsAs (α := α) (throw (.formatIn path cause)) (.error (.formatIn path cause)) := by
  refine ⟨rfl, ?_⟩
  intro cause' h
  cases h
  rfl

/-- The steps after a step go on from its value. -/
theorem bind {next : α → Checked SegmentError β} {further : α → Result β}
    (ends : EndsAs steps result) (rest : ∀ a, result = .ok a → EndsAs (next a) (further a)) :
    EndsAs (steps >>= next) (result >>= further) := by
  refine ⟨Checked.bind_eq ends.steps_eq fun a ha => (rest a ha).steps_eq, ?_⟩
  cases result with
  | error cause =>
    intro cause' h
    cases h
    exact ends.formatOnly cause rfl
  | ok a => exact (rest a rfl).formatOnly

theorem map (ends : EndsAs steps result) (f : α → β) :
    EndsAs (steps >>= fun a => pure (f a)) (result.map f) := by
  obtain ⟨rfl, hformat⟩ := ends
  cases result with
  | error cause =>
    refine ⟨rfl, ?_⟩
    intro cause' h
    cases h
    exact hformat cause rfl
  | ok a => exact ok (f a)

/-- A fault of the bytes is told as one of the format. -/
theorem adapt {told : FormatFault → SegmentError} {steps : Checked FormatFault α}
    {result : Except FormatFault α} (h : steps = Checked.of result)
    (isFormat : ∀ cause, (told cause).isFormat = true) :
    EndsAs (ExceptT.adapt told steps) (result.mapError told) := by
  subst h
  refine ⟨rfl, ?_⟩
  intro cause h
  cases result with
  | error fault =>
    cases h
    exact isFormat fault
  | ok a => cases h

end EndsAs

end SpatialSegment
