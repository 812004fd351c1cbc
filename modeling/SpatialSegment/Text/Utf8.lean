import SpatialSegment.Word

/-!
# Text as bytes

Keys are stored as the UTF-8 bytes of their characters. Reading them back is the partial inverse of
writing them. Bytes that are no text have a first fault: the place where the longest readable part
ends, and whether a character that begins there is cut off by the end of the bytes or contradicted
by them after its first one, two or three bytes.
-/

namespace SpatialSegment

namespace Text

def bytes (s : String) : Bytes :=
  s.toByteArray.data.toList

def ofBytes? (bs : Bytes) : Option String :=
  String.fromUTF8? ⟨bs.toArray⟩

theorem ofBytes?_bytes (s : String) : ofBytes? (bytes s) = some s := by
  have h : (⟨(bytes s).toArray⟩ : ByteArray) = s.toByteArray := by simp [bytes]
  simp only [ofBytes?, h, String.fromUTF8?, s.isValidUTF8, dite_true, Option.some.injEq]
  rfl

theorem bytes_of_ofBytes? {bs : Bytes} {s : String} (h : ofBytes? bs = some s) : bytes s = bs := by
  simp only [ofBytes?, String.fromUTF8?] at h
  split at h
  · cases h
    simp [bytes, String.fromUTF8]
  · cases h

theorem ofBytes?_eq_some_iff {bs : Bytes} {s : String} : ofBytes? bs = some s ↔ bs = bytes s :=
  ⟨fun h => (bytes_of_ofBytes? h).symm, fun h => h ▸ ofBytes?_bytes s⟩

theorem bytes_injective {s t : String} (h : bytes s = bytes t) : s = t := by
  have := ofBytes?_bytes t
  rw [← h, ofBytes?_bytes] at this
  exact Option.some.inj this

/-- Where and how bytes stop being text. -/
inductive Fault where
  | cutOff (index : Nat)
  | contradicted (index length : Nat)
deriving DecidableEq, Repr

def Fault.message : Fault → String
  | .cutOff index => s!"incomplete utf-8 byte sequence from index {index}"
  | .contradicted index length =>
    s!"invalid utf-8 sequence of {length} bytes from index {index}"

def isContinuation (b : UInt8) : Bool :=
  0x80 ≤ b && b ≤ 0xbf

/-- The bytes that may follow a first byte of three or four. -/
def secondOfThree (a b : UInt8) : Bool :=
  if a = 0xe0 then 0xa0 ≤ b && b ≤ 0xbf
  else if a = 0xed then 0x80 ≤ b && b ≤ 0x9f
  else isContinuation b

def secondOfFour (a b : UInt8) : Bool :=
  if a = 0xf0 then 0x90 ≤ b && b ≤ 0xbf
  else if a = 0xf4 then 0x80 ≤ b && b ≤ 0x8f
  else isContinuation b

/-- The first fault of bytes that are no text, counted from `index`; bytes that are text end like a
character cut off before its first byte. -/
def faultFrom (index : Nat) : Bytes → Fault
  | [] => .cutOff index
  | a :: rest =>
    if a < 0x80 then faultFrom (index + 1) rest
    else if 0xc2 ≤ a && a ≤ 0xdf then
      match rest with
      | [] => .cutOff index
      | b :: rest =>
        if isContinuation b then faultFrom (index + 2) rest else .contradicted index 1
    else if 0xe0 ≤ a && a ≤ 0xef then
      match rest with
      | [] => .cutOff index
      | b :: rest =>
        if secondOfThree a b then
          match rest with
          | [] => .cutOff index
          | c :: rest =>
            if isContinuation c then faultFrom (index + 3) rest else .contradicted index 2
        else .contradicted index 1
    else if 0xf0 ≤ a && a ≤ 0xf4 then
      match rest with
      | [] => .cutOff index
      | b :: rest =>
        if secondOfFour a b then
          match rest with
          | [] => .cutOff index
          | c :: rest =>
            if isContinuation c then
              match rest with
              | [] => .cutOff index
              | d :: rest =>
                if isContinuation d then faultFrom (index + 4) rest else .contradicted index 3
            else .contradicted index 2
        else .contradicted index 1
    else .contradicted index 1

def fault (bs : Bytes) : Fault :=
  faultFrom 0 bs

/-- The order of two texts by their bytes, the first difference deciding. -/
def compareBytes : Bytes → Bytes → Ordering
  | [], [] => .eq
  | [], _ :: _ => .lt
  | _ :: _, [] => .gt
  | a :: as, b :: bs => if a < b then .lt else if b < a then .gt else compareBytes as bs

def compare (s t : String) : Ordering :=
  compareBytes (bytes s) (bytes t)

end Text

end SpatialSegment
