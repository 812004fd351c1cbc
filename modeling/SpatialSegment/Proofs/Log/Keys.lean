import SpatialSegment.Proofs.Log
import SpatialSegment.Proofs.Tuple.Decoding

/-!
# The key of a record that is read

Whatever a log holds, the key that is read on its own at an offset is the one of the tuple that is
read there. Both reads ask for ranges that begin at the offset, and a shorter range gives the first
bytes of a longer one.
-/

namespace SpatialSegment

namespace View

variable {fs : FileSystem} {v : View} {front rest : Bytes} {offset len : Nat}

/-- The first bytes of a range are those of a shorter range. -/
theorem slice_of_append (h : v.slice fs offset len = .ok (front ++ rest)) :
    front.length ≤ len ∧ v.slice fs offset front.length = .ok front := by
  have first {bs : Bytes} (hbs : (bs.drop offset).take len = front ++ rest) :
      front.length ≤ len ∧ (bs.drop offset).take front.length = front := by
    have hlen : front.length ≤ len := by
      have := congrArg List.length hbs
      rw [List.length_take, List.length_append] at this
      omega
    refine ⟨hlen, ?_⟩
    rw [← Nat.min_eq_left hlen, ← List.take_take, hbs, List.take_left]
  cases v with
  | mapped content =>
    rw [slice] at h ⊢
    cases hslice : content.slice? offset len with
    | none =>
      rw [hslice] at h
      cases h
    | some found =>
      rw [hslice] at h
      cases h
      obtain ⟨inside, hbs⟩ := Bytes.slice?_eq_some_iff.mp hslice
      obtain ⟨hlen, hfront⟩ := first hbs
      rw [Bytes.slice?_eq_some_iff.mpr ⟨by omega, hfront⟩]
      exact ⟨hlen, rfl⟩
  | buffered file length =>
    rw [slice] at h ⊢
    by_cases far : signedLimit ≤ offset
    · rw [if_pos far] at h
      cases h
    · rw [if_neg far] at h ⊢
      dsimp only at h ⊢
      by_cases full : (((fs.content file).drop offset).take len).length = len
      · rw [if_pos full] at h
        obtain ⟨hlen, hfront⟩ := first (Except.ok.inj h)
        rw [hfront, if_pos rfl]
        exact ⟨hlen, rfl⟩
      · rw [if_neg full] at h
        cases h

end View

namespace GuardedFile

variable {fs : FileSystem} {f : GuardedFile} {v : View} {front rest : Bytes} {offset len : Nat}

theorem read_of_append (h : f.read fs v offset len = .ok (front ++ rest)) :
    f.read fs v offset front.length = .ok front := by
  rw [read] at h ⊢
  by_cases inside : offset + len ≤ v.length
  · rw [if_pos inside] at h
    obtain ⟨hlen, hslice⟩ := View.slice_of_append (mapError_eq_ok.mp h)
    rw [if_pos (by omega), hslice]
    rfl
  · rw [if_neg inside] at h
    cases h

/-- A use that has given a value has seen a view, and every other use sees it as well. -/
theorem exists_of_use {α : Type} {answer : View → Result α} {a : α}
    (h : f.use answer = .ok (some a)) :
    ∃ v, answer v = .ok a ∧ ∀ {β : Type} (other : View → Result β),
      f.use other = (other v).map some := by
  rw [use_eq] at h
  by_cases hrunning : f.service.status = .running
  · rw [if_pos hrunning] at h
    cases hview : f.view with
    | none =>
      rw [hview] at h
      cases h
    | some v =>
      rw [hview] at h
      refine ⟨v, ?_, fun other => ?_⟩
      · cases hanswer : answer v with
        | error cause =>
          simp only [Option.elim, hanswer] at h
          cases h
        | ok b =>
          simp only [Option.elim, hanswer] at h
          cases h
          rfl
      · rw [use_eq, if_pos hrunning, hview]
        rfl
  · rw [if_neg hrunning] at h
    cases h

end GuardedFile

namespace Log

variable {fs : FileSystem} {log : Log} {offset : Nat} {t : Tuple}

/-- A tuple is read from a range that begins with its record. -/
theorem exists_record_of_read {v : View} {len : Nat}
    (h : log.readRecord fs v offset len = .ok t) :
    ∃ after, log.file.read fs v offset len = .ok (Record.stored t ++ after) ∧ Record.Fits t := by
  obtain ⟨record, hrecord, h⟩ := bind_eq_ok.mp h
  cases hdecode : Record.decode record 0 with
  | error cause =>
    rw [hdecode] at h
    cases h
  | ok found =>
    obtain ⟨t', stop⟩ := found
    rw [hdecode] at h
    cases h
    obtain ⟨before, after, rfl, hbefore, fits, -⟩ := Record.decode_eq_ok_iff.mp hdecode
    obtain rfl := List.eq_nil_of_length_eq_zero hbefore
    exact ⟨after, hrecord, fits⟩

/-- Where a tuple is read, its key is read on its own. -/
theorem keyAt_of_tupleAt (h : log.tupleAt fs offset = .ok (some t)) :
    log.keyAt fs offset = .ok (some t.key) := by
  obtain ⟨v, hread, uses⟩ := GuardedFile.exists_of_use h
  obtain ⟨len, -, hread⟩ := bind_eq_ok.mp hread
  obtain ⟨after, hrecord, fits⟩ := exists_record_of_read hread
  have hrecord' : log.file.read fs v offset len =
      .ok (Record.header t ++ Text.bytes t.key ++ (t.box.toBytes ++ t.payload ++ after)) := by
    simpa only [Record.stored, List.append_assoc] using hrecord
  have hkey := GuardedFile.read_of_append hrecord'
  have hheader := GuardedFile.read_of_append hkey
  rw [List.length_append] at hkey
  rw [Record.length_header] at hkey hheader
  exact keyAt_of_reads fits uses hheader hkey

end Log

end SpatialSegment
