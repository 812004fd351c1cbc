import SpatialSegment.Tuple
import SpatialSegment.Box.Stored

/-!
# Records

The stored form of a tuple: a header of 26 bytes, then key, box and payload. The header holds the
three lengths in two, four and four bytes and both times in eight bytes each. Words are signed and
have their most significant byte first. A key has at least one byte.

Reading works at a position of a buffer and gives the position behind what was read; `next` and
`nextKey` move a position that is kept from call to call.
-/

namespace SpatialSegment

namespace Record

def headerLen : Nat := 26

def storedLen (t : Tuple) : Nat :=
  headerLen + (Text.bytes t.key).length + t.box.storedLen + t.payload.length

/-- A length that a signed word of four bytes holds. -/
def lengthWord (field : String) (length : Nat) : Except ArgumentFault Bytes :=
  if length ≤ Word.maxSigned32 then .ok (Word.big 4 length)
  else .error (.longField field length)

def encode (t : Tuple) : Except ArgumentFault Bytes := do
  let key := Text.bytes t.key
  if key = [] then throw .emptyKey
  if Word.maxSigned16 < key.length then throw (.longKey key.length)
  let boxLen ← lengthWord "bounding box" t.box.storedLen
  let payloadLen ← lengthWord "payload" t.payload.length
  return Word.big 2 key.length ++ boxLen ++ payloadLen ++
    Word.big 8 t.version.toUInt64.toNat ++ Word.big 8 t.received.toUInt64.toNat ++
    key ++ t.box.toBytes ++ t.payload

/-- Steps that add to the end of a buffer, and what they have added also when they fail. -/
abbrev Appending := ExceptT ArgumentFault (StateM Bytes)

def extend (bs : Bytes) : Appending Unit :=
  modify (· ++ bs)

/-- Adds the record of the tuple, field after field, once all lengths have been looked at. -/
def append (t : Tuple) : Appending Unit := do
  let key := Text.bytes t.key
  if key = [] then throw .emptyKey
  if Word.maxSigned16 < key.length then throw (.longKey key.length)
  let boxLen ← liftM (lengthWord "bounding box" t.box.storedLen)
  let payloadLen ← liftM (lengthWord "payload" t.payload.length)
  extend (Word.big 2 key.length)
  extend boxLen
  extend payloadLen
  extend (Word.big 8 t.version.toUInt64.toNat)
  extend (Word.big 8 t.received.toUInt64.toNat)
  extend key
  extend t.box.toBytes
  extend t.payload

structure Header where
  keyLen : Nat
  boxLen : Nat
  payloadLen : Nat
  version : Int64
  received : Int64

/-- The bytes from `pos` on. -/
def take (buf : Bytes) (pos len : Nat) : Except FormatFault Bytes :=
  match buf.slice? pos len with
  | some bs => .ok bs
  | none => .error (.shortRecord len pos buf.length)

/-- A stored length, which must not be negative. -/
def readLength (field : String) (bs : Bytes) : Except FormatFault Nat :=
  let n := Word.signed bs.length (Word.ofBig bs)
  if 0 ≤ n then .ok n.toNat else .error (.negativeLength field n)

def readTime (bs : Bytes) : Int64 :=
  (UInt64.ofNat (Word.ofBig bs)).toInt64

def Header.read (buf : Bytes) (pos : Nat) : Except FormatFault Header := do
  let raw ← take buf pos headerLen
  let keyLen ← readLength "key" (raw.take 2)
  let boxLen ← readLength "bounding box" ((raw.drop 2).take 4)
  let payloadLen ← readLength "payload" ((raw.drop 6).take 4)
  return { keyLen, boxLen, payloadLen
           version := readTime ((raw.drop 10).take 8)
           received := readTime ((raw.drop 18).take 8) }

def readKey (bs : Bytes) : Except FormatFault String :=
  match Text.ofBytes? bs with
  | some key => .ok key
  | none => .error (.keyText (Text.fault bs))

/-- The tuple whose record begins at `pos`, and where the record ends. -/
def decode (buf : Bytes) (pos : Nat) : Except FormatFault (Tuple × Nat) := do
  let header ← Header.read buf pos
  let keyAt := pos + headerLen
  let key ← take buf keyAt header.keyLen >>= readKey
  let boxAt := keyAt + header.keyLen
  let box ← take buf boxAt header.boxLen >>= Box.ofBytes
  let payloadAt := boxAt + header.boxLen
  let payload ← take buf payloadAt header.payloadLen
  return ({ key, box, payload, version := header.version, received := header.received },
    payloadAt + header.payloadLen)

/-- The key of the record that begins at `pos`, and where the key ends. Of the header only the
length of the key is read. -/
def peekKey (buf : Bytes) (pos : Nat) : Except FormatFault (String × Nat) := do
  let keyLen ← take buf pos 2 >>= readLength "key"
  let keyAt := pos + headerLen
  let key ← take buf keyAt keyLen >>= readKey
  return (key, keyAt + keyLen)

/-- Steps that move a position in a buffer, and where it is also when they fail. -/
abbrev Moving := ExceptT FormatFault (StateM Nat)

/-- Reads at the position and moves it behind what was read. -/
def advance {α : Type} (read : Nat → Except FormatFault (α × Nat)) : Moving α := do
  let (value, stop) ← liftM (read (← get))
  set stop
  return value

/-- The tuple whose record begins at the position, which moves to the end of the record. -/
def next (buf : Bytes) : Moving Tuple :=
  advance (decode buf)

/-- The key of the record that begins at the position, which moves to the end of the key. -/
def nextKey (buf : Bytes) : Moving String :=
  advance (peekKey buf)

/-- The length that a header announces for its record. -/
def announcedLen (header : Bytes) : Except FormatFault Nat := do
  let h ← Header.read header 0
  return headerLen + h.keyLen + h.boxLen + h.payloadLen

theorem headerLen_le_announcedLen {header : Bytes} {n : Nat} (h : announcedLen header = .ok n) :
    headerLen ≤ n := by
  unfold announcedLen at h
  cases hread : Header.read header 0 with
  | error cause =>
    rw [hread] at h
    cases h
  | ok fields =>
    rw [hread] at h
    cases h
    omega

end Record

end SpatialSegment
