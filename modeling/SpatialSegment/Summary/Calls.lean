import SpatialSegment.Summary

/-!
# Tuples offered to a growing summary

The owner of a draft offers it tuples one after another and may go on after a refusal. A draft is
changed in place, one field after another, but not before its new box is known.
-/

namespace SpatialSegment

namespace Summary

namespace Draft

/-- Takes the tuple in; a failure leaves what has been changed before it. -/
def addInPlace (t : Tuple) : ExceptT ArgumentFault (StateM Draft) Unit := do
  let box ← ExceptT.mk (pure ((← get).box.merge t.box))
  modify fun d => { d with tuples := d.tuples + 1 }
  modify fun d => { d with times := some (match d.times with
    | none => Times.ofTuple t
    | some times => times.add t) }
  modify fun d => { d with box }

/-- The answer to a tuple, and the draft then. -/
def offer (d : Draft) (t : Tuple) : Except ArgumentFault Unit × Draft :=
  (addInPlace t).run.run d

end Draft

end Summary

end SpatialSegment
