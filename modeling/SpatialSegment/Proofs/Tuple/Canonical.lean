import SpatialSegment.Proofs.Tuple.Stream

/-!
# Reading accepts records only

Whenever a tuple is read from a position, the bytes that the position moves over are its record, and
they are what encoding the tuple gives. There is one exception: a record with an empty key is read,
but encoding refuses its tuple.
-/

namespace SpatialSegment

namespace Record

section

variable {buf out : Bytes} {pos stop : Nat} {t : Tuple}

theorem decode_of_next (h : (next buf).run.run pos = (.ok t, stop)) :
    decode buf pos = .ok (t, stop) := by
  rw [run_next] at h
  cases hdecode : decode buf pos with
  | error cause =>
    rw [hdecode] at h
    cases h
  | ok read =>
    rw [hdecode] at h
    cases h
    rfl

/-- The bytes that a tuple has been read from are its record. -/
theorem stored_of_decode (h : decode buf pos = .ok (t, stop)) :
    Fits t ∧ pos + storedLen t = stop ∧ stop ≤ buf.length ∧
      (buf.drop pos).take (stop - pos) = stored t := by
  obtain ⟨before, after, rfl, rfl, fits, rfl⟩ := decode_eq_ok_iff.mp h
  refine ⟨fits, rfl, ?_, ?_⟩
  · simp only [List.length_append, length_stored]
    omega
  · rw [Nat.add_sub_cancel_left, List.append_assoc, List.drop_left, ← length_stored t,
      List.take_left]

theorem Fits.storable (fits : Fits t) (hkey : t.key ≠ "") : Storable t := by
  refine ⟨fits, List.length_pos_iff.mpr fun hempty => hkey ?_⟩
  exact Text.bytes_injective hempty

/-- A tuple with an empty key is refused before anything else is looked at. -/
theorem run_append_of_empty (hkey : t.key = "") (out : Bytes) :
    (append t).run.run out = (.error .emptyKey, out) := by
  have hbytes : Text.bytes t.key = [] := by rw [hkey]; rfl
  have hencode : encode t = .error .emptyKey := by rw [encode, if_pos hbytes]; rfl
  rw [run_append, hencode]

end

/-- A call that reads a tuple moves the position over its record, which lies within the buffer.
Appending the tuple to any other buffer adds the same bytes if its key is not empty, and is refused
if it is. -/
theorem append_of_next (buf : Bytes) (pos stop : Nat) (t : Tuple)
    (read : (next buf).run.run pos = (.ok t, stop)) :
    pos + storedLen t = stop ∧ stop ≤ buf.length ∧
      (t.key ≠ "" → ∀ out,
        (append t).run.run out = (.ok (), out ++ (buf.drop pos).take (stop - pos))) ∧
      (t.key = "" → ∀ out, (append t).run.run out = (.error .emptyKey, out)) := by
  obtain ⟨fits, hstop, hinside, hrecord⟩ := stored_of_decode (decode_of_next read)
  refine ⟨hstop, hinside, fun hkey out => ?_, run_append_of_empty⟩
  rw [hrecord]
  exact run_append_of_storable (fits.storable hkey) out

/-- A record with a box, between other bytes. -/
theorem append_of_next_boxed :
    let t : Tuple := ⟨"k", ⟨[⟨⟨0⟩, ⟨0x3ff0000000000000⟩, by decide⟩]⟩, [5], -1, 2⟩
    let buf := [9, 9, 9] ++ stored t ++ [9]
    (next buf).run.run 3 = (.ok t, 47) ∧
      ∀ out, (append t).run.run out = (.ok (), out ++ (buf.drop 3).take 44) := by
  intro t buf
  have fits : Fits t := ⟨by decide, by decide, by decide⟩
  have hdecode : decode buf 3 = .ok (t, 47) := decode_stored fits [9, 9, 9] [9]
  have read : (next buf).run.run 3 = (.ok t, 47) := by rw [run_next, hdecode]
  obtain ⟨-, -, happend, -⟩ := append_of_next buf 3 47 t read
  exact ⟨read, happend (by decide)⟩

/-- Twenty-six zero bytes are a record with an empty key, which is read and cannot be appended. -/
theorem next_of_empty_key :
    let t : Tuple := ⟨"", Box.fullSpace, [], 0, 0⟩
    (next (List.replicate 26 0)).run.run 0 = (.ok t, 26) ∧
      (append t).run.run [] = (.error .emptyKey, []) := by
  intro t
  have fits : Fits t := ⟨by decide, by decide, by decide⟩
  have hstored : stored t = List.replicate 26 0 := by decide +kernel
  have hdecode : decode (stored t ++ []) 0 = .ok (t, 26) := decode_stored fits [] []
  rw [List.append_nil, hstored] at hdecode
  refine ⟨?_, run_append_of_empty rfl []⟩
  rw [run_next, hdecode]

end Record

end SpatialSegment
