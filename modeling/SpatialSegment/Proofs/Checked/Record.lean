import SpatialSegment.File.View
import SpatialSegment.Proofs.Box.Stored
import SpatialSegment.Proofs.Checked.Steps
import SpatialSegment.Proofs.Tuple.Decoding

/-!
# Records are read without a crash

The reader of a record goes through a buffer by a position and adds lengths that the buffer tells.
In a buffer that memory holds it does not crash, whatever the bytes are: a length is less than half
of what its word holds, and what is taken lies within the buffer.
-/

namespace SpatialSegment

open Machine

namespace Box

/-- The words of eight bytes, each copied from its place. -/
def checkedWords (bs : Bytes) : Checked ArgumentFault (List Coord) :=
  if _long : 8 ≤ bs.length then do
    let word ← range bs 0 8
    let words ← checkedWords (bs.drop 8)
    return ⟨UInt64.ofNat (Word.ofBig word)⟩ :: words
  else return []
termination_by bs.length
decreasing_by rw [List.length_drop]; omega

/-- Pairs the ends up and counts the dimensions. -/
def checkedPairUp (dimension : Nat) (cs : List Coord) : Checked ArgumentFault (List Interval) :=
  if _two : 2 ≤ cs.length then do
    let lo ← (item cs 0 : Machine Coord)
    let hi ← (item cs 1 : Machine Coord)
    if h : lo ≤ hi then do
      let next ← add dimension 1
      let intervals ← checkedPairUp next (cs.drop 2)
      return ⟨lo, hi, h⟩ :: intervals
    else throw (.invalidInterval lo hi dimension)
  else return []
termination_by cs.length
decreasing_by rw [List.length_drop]; omega

def checkedOfBytes (bs : Bytes) : Checked FormatFault Box :=
  if bs.length % 16 ≠ 0 then throw (.boxLength bs.length)
  else ExceptT.adapt .box do
    let cs ← checkedWords bs
    if cs.length % 2 ≠ 0 then throw (.oddCoordinates cs.length)
    else return ⟨← checkedPairUp 0 cs⟩

theorem words_of_short {bs : Bytes} (h : bs.length < 8) : words bs = [] := by
  rw [words]
  rintro b0 b1 b2 b3 b4 b5 b6 b7 rest rfl
  simp only [List.length_cons] at h
  omega

theorem words_of_long {bs : Bytes} (h : 8 ≤ bs.length) :
    words bs = ⟨UInt64.ofNat (Word.ofBig (bs.take 8))⟩ :: words (bs.drop 8) := by
  rw [← words_append (by rw [List.length_take]; omega), List.take_append_drop]

theorem length_words_le (bs : Bytes) : (words bs).length ≤ bs.length := by
  induction hk : bs.length using Nat.strongRecOn generalizing bs with
  | ind k ih =>
    by_cases hlong : 8 ≤ bs.length
    · have hrest := ih (bs.drop 8).length (by rw [List.length_drop]; omega) _ rfl
      rw [List.length_drop] at hrest
      rw [words_of_long hlong, List.length_cons]
      omega
    · rw [words_of_short (by omega)]
      exact Nat.zero_le _

theorem checkedWords_eq (bs : Bytes) : checkedWords bs = Checked.of (.ok (words bs)) := by
  induction hk : bs.length using Nat.strongRecOn generalizing bs with
  | ind k ih =>
    rw [checkedWords]
    by_cases hlong : 8 ≤ bs.length
    · rw [dif_pos hlong, range_zero hlong, Checked.lift_bind,
        ih (bs.drop 8).length (by rw [List.length_drop]; omega) _ rfl, words_of_long hlong]
      rfl
    · rw [dif_neg hlong, words_of_short (by omega)]
      rfl

theorem checkedPairUp_eq (cs : List Coord) (dimension : Nat)
    (few : dimension + cs.length < Word.limit 8) :
    checkedPairUp dimension cs = Checked.of (pairUp dimension cs) := by
  induction dimension, cs using pairUp.induct with
  | case1 dimension lo hi rest h ih =>
    simp only [List.length_cons] at few
    rw [checkedPairUp, dif_pos (by simp only [List.length_cons]; omega), item_eq rfl,
      Checked.lift_bind, item_eq rfl, Checked.lift_bind, dif_pos h, add_eq (by omega),
      Checked.lift_bind]
    dsimp only [List.drop]
    rw [ih (by omega), pairUp, dif_pos h]
    exact Checked.bind_eq rfl fun is _ => rfl
  | case2 dimension lo hi rest h =>
    rw [checkedPairUp, dif_pos (by simp only [List.length_cons]; omega), item_eq rfl,
      Checked.lift_bind, item_eq rfl, Checked.lift_bind, dif_neg h, pairUp, dif_neg h]
    rfl
  | case3 cs dimension short =>
    have hshort : ¬ 2 ≤ cs.length := by
      rcases cs with _ | ⟨lo, _ | ⟨hi, rest⟩⟩
      · exact Nat.not_succ_le_zero 1
      · exact Nat.lt_irrefl 1
      · exact absurd rfl (short lo hi rest)
    rw [checkedPairUp, dif_neg hshort, pairUp.eq_2 dimension cs short]
    rfl

/-- A box is read without a crash. -/
theorem checkedOfBytes_eq {bs : Bytes} (small : bs.length < Word.limit 8) :
    checkedOfBytes bs = Checked.of (ofBytes bs) := by
  rw [checkedOfBytes, ofBytes]
  by_cases hwhole : bs.length % 16 ≠ 0
  · rw [if_pos hwhole, if_pos hwhole]
    rfl
  · have hpairs := checkedPairUp_eq (words bs) 0 (by have := length_words_le bs; omega)
    rw [if_neg hwhole, if_neg hwhole, checkedWords_eq, Checked.of_ok_bind, ofCoords]
    by_cases hodd : (words bs).length % 2 ≠ 0
    · rw [if_pos hodd, if_pos hodd]
      rfl
    · rw [if_neg hodd, if_neg hodd, hpairs]
      cases pairUp 0 (words bs) <;> rfl

end Box

namespace Record

/-- The bytes from the position on, and the position behind them. -/
def checkedTake (buf : Bytes) (pos len : Nat) : Checked FormatFault (Bytes × Nat) :=
  match sum? pos len with
  | some stop =>
    if stop ≤ buf.length then do
      let bs ← range buf pos stop
      return (bs, stop)
    else throw (.shortRecord len pos buf.length)
  | none => throw (.shortRecord len pos buf.length)

def checkedHeader (buf : Bytes) (pos : Nat) : Checked FormatFault Header := do
  let (raw, _) ← checkedTake buf pos headerLen
  let keyLen ← range raw 0 2
  let boxLen ← range raw 2 6
  let payloadLen ← range raw 6 10
  let version ← range raw 10 18
  let received ← range raw 18 26
  let keyLen ← Checked.of (readLength "key" keyLen)
  let boxLen ← Checked.of (readLength "bounding box" boxLen)
  let payloadLen ← Checked.of (readLength "payload" payloadLen)
  return { keyLen, boxLen, payloadLen, version := readTime version, received := readTime received }

def checkedDecode (buf : Bytes) (pos : Nat) : Checked FormatFault (Tuple × Nat) := do
  let header ← checkedHeader buf pos
  let cursor ← add pos headerLen
  let (raw, cursor) ← checkedTake buf cursor header.keyLen
  let key ← Checked.of (readKey raw)
  let (raw, cursor) ← checkedTake buf cursor header.boxLen
  let box ← Box.checkedOfBytes raw
  let (payload, cursor) ← checkedTake buf cursor header.payloadLen
  return ({ key, box, payload, version := header.version, received := header.received }, cursor)

/-- The bytes between the length of a key and the key. -/
def keySkip : Nat := 24

def checkedPeekKey (buf : Bytes) (pos : Nat) : Checked FormatFault (String × Nat) := do
  let (raw, cursor) ← checkedTake buf pos 2
  let keyLen ← range raw 0 2
  let keyLen ← Checked.of (readLength "key" keyLen)
  let cursor ← add cursor keySkip
  let (raw, cursor) ← checkedTake buf cursor keyLen
  let key ← Checked.of (readKey raw)
  return (key, cursor)

def checkedAnnouncedLen (header : Bytes) : Checked FormatFault Nat := do
  let h ← checkedHeader header 0
  let len ← add headerLen h.keyLen
  let len ← add len h.boxLen
  add len h.payloadLen

variable {buf : Bytes} {pos len : Nat}

/-- What is taken lies within the buffer, so a buffer of memory leaves room for the sum. -/
theorem checkedTake_eq (small : buf.length < Word.limit 8) :
    checkedTake buf pos len =
      Checked.of ((take buf pos len).map fun bs => (bs, pos + len)) := by
  rw [checkedTake, take, Bytes.slice?]
  by_cases hinside : pos + len ≤ buf.length
  · rw [sum?, if_pos (by omega)]
    dsimp only
    rw [if_pos hinside, if_pos hinside, range_eq (by omega) hinside, Nat.add_sub_cancel_left]
    rfl
  · rw [if_neg hinside]
    by_cases hword : pos + len < Word.limit 8
    · rw [sum?, if_pos hword]
      dsimp only
      rw [if_neg hinside]
      rfl
    · rw [sum?, if_neg hword]
      rfl

/-- The steps behind a take go on with its bytes and from the position behind them. -/
theorem checkedTake_bind {α : Type} {next : Bytes × Nat → Checked FormatFault α}
    {further : Bytes → Except FormatFault α} (small : buf.length < Word.limit 8)
    (rest : ∀ bs, take buf pos len = .ok bs → next (bs, pos + len) = Checked.of (further bs)) :
    (checkedTake buf pos len >>= next) = Checked.of (take buf pos len >>= further) := by
  rw [checkedTake_eq small]
  cases h : take buf pos len with
  | error cause => rfl
  | ok bs => exact rest bs h

theorem checkedHeader_eq (small : buf.length < Word.limit 8) :
    checkedHeader buf pos = Checked.of (Header.read buf pos) := by
  rw [checkedHeader, Header.read]
  refine checkedTake_bind small fun raw hraw => ?_
  have hlength : raw.length = 26 := length_of_take hraw
  have hrange : ∀ {start stop : Nat}, start ≤ stop → stop ≤ 26 →
      range raw start stop = pure ((raw.drop start).take (stop - start)) :=
    fun hle inside => range_eq hle (hlength ▸ inside)
  dsimp only
  rw [hrange (by decide) (by decide), Checked.lift_bind, hrange (by decide) (by decide),
    Checked.lift_bind, hrange (by decide) (by decide), Checked.lift_bind,
    hrange (by decide) (by decide), Checked.lift_bind, hrange (by decide) (by decide),
    Checked.lift_bind]
  refine Checked.bind_eq rfl fun keyLen _ => ?_
  refine Checked.bind_eq rfl fun boxLen _ => ?_
  exact Checked.bind_eq rfl fun payloadLen _ => rfl

theorem inside_of_read {header : Header} (h : Header.read buf pos = .ok header) :
    pos + headerLen ≤ buf.length := by
  obtain ⟨raw, hraw, -⟩ := bind_eq_ok.mp h
  exact (take_eq_ok_iff.mp hraw).1

/-- A record is decoded without a crash. -/
theorem checkedDecode_eq (small : buf.length < Word.limit 8) :
    checkedDecode buf pos = Checked.of (decode buf pos) := by
  rw [checkedDecode, decode]
  refine Checked.bind_eq (checkedHeader_eq small) fun header hheader => ?_
  have hinside := inside_of_read hheader
  rw [add_eq (by omega), Checked.lift_bind]
  simp only [bind_assoc]
  refine checkedTake_bind small fun raw _ => ?_
  refine Checked.bind_eq rfl fun key _ => ?_
  refine checkedTake_bind small fun raw hraw => ?_
  have hle := (take_eq_ok_iff.mp hraw).1
  have hlength := length_of_take hraw
  refine Checked.bind_eq (Box.checkedOfBytes_eq (by dsimp only; omega)) fun box _ => ?_
  exact checkedTake_bind small fun payload _ => rfl

/-- The key of a record is read without a crash. Unlike that of a whole record, its position may go
past the end of the buffer. -/
theorem checkedPeekKey_eq (small : buf.length < View.signedLimit) :
    checkedPeekKey buf pos = Checked.of (peekKey buf pos) := by
  have hlimit : Word.limit 8 = 18446744073709551616 := rfl
  have hsigned : View.signedLimit = 9223372036854775808 := rfl
  have hskip : pos + 2 + keySkip = pos + headerLen := rfl
  rw [checkedPeekKey, peekKey]
  simp only [bind_assoc]
  refine checkedTake_bind (by omega) fun raw hraw => ?_
  have hinside := (take_eq_ok_iff.mp hraw).1
  have hlength : raw.length = 2 := length_of_take hraw
  dsimp only
  rw [range_all hlength, Checked.lift_bind]
  refine Checked.bind_eq rfl fun keyLen _ => ?_
  rw [add_eq (by rw [keySkip]; omega), Checked.lift_bind, hskip]
  refine checkedTake_bind (by omega) fun raw _ => ?_
  exact Checked.bind_eq rfl fun key _ => rfl

/-- The length of a record is far below the limit of a word. -/
theorem announcedLen_lt {header : Bytes} {n : Nat} (h : announcedLen header = .ok n) :
    n < 2 * Word.limit 4 := by
  obtain ⟨fields, hfields, h⟩ := bind_eq_ok.mp h
  have hlengths := lengths_lt_of_read hfields
  have hlimit2 : Word.limit 2 = 65536 := rfl
  have hlimit4 : Word.limit 4 = 4294967296 := rfl
  cases h
  rw [headerLen]
  omega

theorem checkedAnnouncedLen_eq {header : Bytes} (small : header.length < Word.limit 8) :
    checkedAnnouncedLen header = Checked.of (announcedLen header) := by
  rw [checkedAnnouncedLen, announcedLen]
  refine Checked.bind_eq (checkedHeader_eq small) fun h hheader => ?_
  have hlengths := lengths_lt_of_read hheader
  have hlimit2 : Word.limit 2 = 65536 := rfl
  have hlimit4 : Word.limit 4 = 4294967296 := rfl
  have hlimit8 : Word.limit 8 = 18446744073709551616 := rfl
  rw [add_eq (by rw [headerLen]; omega), Checked.lift_bind, add_eq (by rw [headerLen]; omega),
    Checked.lift_bind, add_eq (by rw [headerLen]; omega)]
  rfl

end Record

end SpatialSegment
