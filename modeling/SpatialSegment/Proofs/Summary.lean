import SpatialSegment.Summary
import SpatialSegment.Proofs.Box.Stored
import SpatialSegment.Proofs.Results

/-!
# Summaries are read back

A summary is read back from its bytes, whatever stands behind them, if the number of its coordinates
fits its word.
-/

namespace SpatialSegment

namespace Summary

variable {s : Summary}

theorem readWord_little (word : UInt64) (rest : Bytes) :
    readWord (Word.little 8 word.toNat ++ rest) = .ok (word, rest) := by
  rw [readWord, Bytes.split?_append (Word.length_little 8 word.toNat)]
  have hword : Word.ofLittle (Word.little 8 word.toNat) = word.toNat :=
    Word.ofLittle_little word.toNat_lt
  simp only [hword, UInt64.ofNat_toNat]

theorem readCoords_little (coords : List Coord) (rest : Bytes) :
    readCoords coords.length ((coords.flatMap fun c => Word.little 8 c.bits.toNat) ++ rest) =
      .ok (coords, rest) := by
  induction coords with
  | nil => rfl
  | cons c coords ih =>
    rw [List.length_cons, readCoords, List.flatMap_cons, List.append_assoc, readWord_little,
      ok_bind]
    simp only [ih, ok_bind]
    rfl

/-- A summary is read back, whatever follows. -/
theorem ofBytes_toBytes (h : s.box.coords.length < Word.limit 8) (rest : Bytes) :
    ofBytes (s.toBytes ++ rest) = .ok s := by
  have hcount : Word.little 8 s.box.coords.length =
      Word.little 8 (UInt64.ofNat s.box.coords.length).toNat := by
    rw [UInt64.toNat_ofNat_of_lt' h]
  have hread : read (s.toBytes ++ rest) = .ok s := by
    rw [read, toBytes, hcount]
    simp only [List.append_assoc, readWord_little, ok_bind]
    rw [UInt64.toNat_ofNat_of_lt' h, readCoords_little, ok_bind]
    simp only [Box.ofCoords_coords, Int64.toInt64_toUInt64]
    rfl
  rw [ofBytes, hread]
  rfl

theorem tuples_of_add {d d' : Draft} {t : Tuple} (h : d.add t = .ok d') :
    d'.tuples = d.tuples + 1 := by
  rw [Draft.add] at h
  obtain ⟨box, -, h⟩ := bind_eq_ok.mp h
  cases h
  rfl

end Summary

end SpatialSegment
