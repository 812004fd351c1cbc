/-!
# Stages in the life of a service

A service is created stopped. Starting ends in running or in failure; stopping a running service
ends in its termination.
-/

namespace SpatialSegment

inductive Status where
  | stopped
  | starting
  | running
  | stopping
  | terminated
  | failed
deriving DecidableEq, Repr

def Status.name : Status → String
  | .stopped => "stopped"
  | .starting => "starting"
  | .running => "running"
  | .stopping => "stopping"
  | .terminated => "terminated"
  | .failed => "failed"

end SpatialSegment
