import SpatialSegment.Text.Utf8

/-!
# Search in a sorted sequence of keys

The positions of a key among `n` keys that are in order and may repeat. The keys are asked for one
at a time, in any monad, and a key may fail to come: then there is no answer. The first and the last
key are looked at before the rest is halved; around the key that is found its equal neighbours are
collected.
-/

namespace SpatialSegment

namespace KeySearch

variable {m : Type → Type} [Monad m] (keyAt : Nat → m (Option String)) (key : String)

/-- The first position of the run of equal keys that ends before or at the given one. -/
def runStart : Nat → m (Option Nat)
  | 0 => pure (some 0)
  | position + 1 => do
    match ← keyAt position with
    | none => pure none
    | some previous =>
      if previous = key then runStart position else pure (some (position + 1))

/-- The last position below `n` of the run of equal keys that goes on from the given one. -/
def runEnd (n position : Nat) : m (Option Nat) :=
  if position + 1 < n then do
    match ← keyAt (position + 1) with
    | none => pure none
    | some next => if next = key then runEnd n (position + 1) else pure (some position)
  else pure (some position)
termination_by n - position

/-- A run goes on at the next position as long as that is below the number of keys. -/
@[elab_as_elim]
theorem runEnd_induction {motive : Nat → Prop} (n : Nat)
    (turn : ∀ position, (position + 1 < n → motive (position + 1)) → motive position)
    (position : Nat) : motive position := by
  induction hk : n - position using Nat.strongRecOn generalizing position with
  | ind k ih => exact turn position fun hlt => ih (n - (position + 1)) (by omega) _ rfl

/-- The positions of the run around one of its members. -/
def run (n position : Nat) : m (Option (List Nat)) := do
  match ← runStart keyAt key position with
  | none => pure none
  | some first =>
    match ← runEnd keyAt key n position with
    | none => pure none
    | some last => pure (some (List.range' first (last + 1 - first)))

/-- Halves the positions from `low` to `high`. -/
def bisect (n low high : Nat) : m (Option (List Nat)) :=
  if low ≤ high then do
    let middle := low + (high - low) / 2
    match ← keyAt middle with
    | none => pure none
    | some found =>
      match Text.compare found key with
      | .eq => run keyAt key n middle
      | .lt => bisect n (middle + 1) high
      | .gt => if middle = 0 then pure (some []) else bisect n low (middle - 1)
  else pure (some [])
termination_by high + 1 - low

/-- Halving goes on behind the middle, or before it unless it is the first position. -/
@[elab_as_elim]
theorem bisect_induction {motive : Nat → Nat → Prop}
    (turn : ∀ low high, (low ≤ high → motive (low + (high - low) / 2 + 1) high) →
      (low ≤ high → low + (high - low) / 2 ≠ 0 → motive low (low + (high - low) / 2 - 1)) →
      motive low high)
    (low high : Nat) : motive low high := by
  induction hk : high + 1 - low using Nat.strongRecOn generalizing low high with
  | ind k ih =>
    refine turn low high (fun hle => ?_) (fun hle hne => ?_)
    · exact ih (high + 1 - (low + (high - low) / 2 + 1)) (by omega) _ _ rfl
    · exact ih (low + (high - low) / 2 - 1 + 1 - low) (by omega) _ _ rfl

/-- The positions of the key among the first `n`. -/
def positions (n : Nat) : m (Option (List Nat)) :=
  if n = 0 then pure (some [])
  else do
    match ← keyAt 0 with
    | none => pure none
    | some first =>
      match Text.compare key first with
      | .lt => pure (some [])
      | .eq => run keyAt key n 0
      | .gt =>
        match ← keyAt (n - 1) with
        | none => pure none
        | some last =>
          match Text.compare key last with
          | .gt => pure (some [])
          | .eq => run keyAt key n (n - 1)
          | .lt => bisect keyAt key n 0 (n - 1)

end KeySearch

end SpatialSegment
