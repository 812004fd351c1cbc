import SpatialSegment.Lifecycle.Status

/-!
# Services with users

A service counts its users. It takes new ones only while it runs; whoever wants to stop it moves it
on first and then waits until the last user has left. A release without a user does nothing. The
cause of a failure stays on record.
-/

namespace SpatialSegment

structure Service where
  status : Status
  usage : Nat
  failure : Option String
deriving DecidableEq

namespace Service

def new : Service := ⟨.stopped, 0, none⟩

def isRunning (s : Service) : Bool := s.status == .running

/-- The move from one stage to another; there is none from any other stage. -/
def transition? (s : Service) (source target : Status) : Option Service :=
  if s.status = source then some { s with status := target } else none

def set (s : Service) (status : Status) : Service :=
  { s with status }

def fail (s : Service) (cause : String) : Service :=
  { s with status := .failed, failure := some cause }

/-- One user more, if users are taken. -/
def acquire? (s : Service) : Option Service :=
  if s.status = .running then some { s with usage := s.usage + 1 } else none

def release (s : Service) : Service :=
  { s with usage := s.usage - 1 }

/-- Whether whoever waits for the last user has to go on waiting. -/
def isUsed (s : Service) : Bool := 0 < s.usage

theorem release_acquire? {s t : Service} (h : s.acquire? = some t) : t.release = s := by
  simp only [acquire?] at h
  split at h
  · cases h
    simp [release]
  · cases h

end Service

end SpatialSegment
