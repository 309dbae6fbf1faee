import KafkaJs.Protocol.Decoder

/-!
# The remaining primitives

The writers and readers of `protocol/encoder.js` and `protocol/decoder.js` that record batches do
not use: booleans, strings and bytes behind a 16-bit, a 32-bit or an unsigned variable length
integer, UUIDs, and arrays of numbers, strings and encoders.

Each writer comes with the bytes it writes (`writes_writeString` and so on). The readers of this
file are undone in `Protocol.Items`, because one of them looks at the bytes that follow.
-/

namespace KafkaJs.Protocol

open KafkaJs.Data

/-! ## Hexadecimal text -/

/-- The code unit of `-`. -/
def dash : UInt16 := 45

/-- The value of a hexadecimal digit, in either case. -/
def hexDigit (unit : UInt16) : Option Nat :=
  if 48 ≤ unit.toNat ∧ unit.toNat < 58 then some (unit.toNat - 48)
  else if 97 ≤ unit.toNat ∧ unit.toNat < 103 then some (unit.toNat - 87)
  else if 65 ≤ unit.toNat ∧ unit.toNat < 71 then some (unit.toNat - 55)
  else none

/-- `Buffer.from(text, 'hex')`: decoding stops at the first pair that is not hexadecimal. -/
def ofHex : Text → Bytes
  | high :: low :: rest =>
      match hexDigit high, hexDigit low with
      | some high, some low => UInt8.ofNat (high * 16 + low) :: ofHex rest
      | _, _ => []
  | _ => []

/-- The digit of a value below 16. -/
def hexUnit (value : Nat) : UInt16 := UInt16.ofNat (if value < 10 then 48 + value else 87 + value)

/-- `buffer.toString('hex')`. -/
def toHex (bytes : Bytes) : Text :=
  bytes.flatMap fun byte => [hexUnit (byte.toNat / 16), hexUnit (byte.toNat % 16)]

/-- The groups of a UUID, joined by dashes. -/
def dashed (hex : Text) : Text :=
  hex.take 8 ++ dash :: ((hex.drop 8).take 4 ++ dash :: ((hex.drop 12).take 4 ++
    dash :: ((hex.drop 16).take 4 ++ dash :: hex.drop 20)))

/-- The text without its dashes. -/
def undashed (value : Text) : Text := value.filter fun unit => unit ≠ dash

/-! ## Writers -/

namespace Encoder

/-- `writeBoolean`. -/
def writeBoolean (value : Bool) : Encoder → Except KafkaError Encoder :=
  if value then writeInt8 1 else writeInt8 0

/-- `writeDouble`, of a double that is given by its 64 bits. -/
def writeDouble (value : BitVec 64) (encoder : Encoder) : Except KafkaError Encoder := do
  let encoder ← encoder.ensureAvailable 8
  let buf ← putUInt 8 value.toNat encoder.offset encoder.buf
  pure ⟨buf, encoder.offset + 8⟩

/-- `writeBuffer`. -/
def writeBuffer (value : Bytes) : Encoder → Except KafkaError Encoder := writeBufferInternal value

/-- `writeUVarInt`. -/
def writeUVarInt (value : Int) : Encoder → Except KafkaError Encoder :=
  writeBufferInternal (uVarIntBytes (BitVec.ofInt 32 value))

/-- `this.buf.write(value, this.offset, byteLength, 'utf8')` where room was made before. -/
def storeText (text : Text) (encoder : Encoder) : Except KafkaError Encoder := do
  let buf ← putText text encoder.offset encoder.buf
  pure ⟨buf, encoder.offset + text.toUtf8.length⟩

/-- `writeString`. -/
def writeString (value : Option Text) (encoder : Encoder) : Except KafkaError Encoder :=
  match value with
  | none => encoder.writeInt16 (-1)
  | some text => do
      let encoder ← encoder.ensureAvailable (2 + text.toUtf8.length)
      let encoder ← encoder.writeInt16 text.toUtf8.length
      encoder.storeText text

/-- `writeVarIntString` of any value. -/
def writeNullableVarIntString (value : Option Text) (encoder : Encoder) :
    Except KafkaError Encoder :=
  match value with
  | none => encoder.writeVarInt (-1)
  | some text => encoder.writeVarIntString text

/-- `writeUVarIntString`. -/
def writeUVarIntString (value : Option Text) (encoder : Encoder) : Except KafkaError Encoder :=
  match value with
  | none => encoder.writeUVarInt 0
  | some text => do
      let encoder ← encoder.writeUVarInt (text.toUtf8.length + 1)
      encoder.writeText text

/-- `writeBytes` of any value. -/
def writeNullableBytes (value : Option Payload) (encoder : Encoder) :
    Except KafkaError Encoder :=
  match value with
  | none => encoder.writeInt32 (-1)
  | some (.buffer bytes) => encoder.writeBytes bytes
  | some (.string text) => do
      let encoder ← encoder.ensureAvailable (4 + text.toUtf8.length)
      let encoder ← encoder.writeInt32 text.toUtf8.length
      encoder.storeText text

/-- `writeUVarIntBytes`. Null is written by `writeVarInt`, whose zero is the same byte. -/
def writeUVarIntBytes (value : Option Payload) (encoder : Encoder) : Except KafkaError Encoder :=
  match value with
  | none => encoder.writeVarInt 0
  | some (.buffer bytes) => do
      let encoder ← encoder.writeUVarInt (bytes.length + 1)
      encoder.writeBufferInternal bytes
  | some (.string text) => do
      let encoder ← encoder.writeUVarInt (text.toUtf8.length + 1)
      encoder.writeText text

/-- `writeUUID`: sixteen zeros for null, else the bytes of the hexadecimal digits, at most
sixteen of them. -/
def writeUUID (value : Option Text) (encoder : Encoder) : Except KafkaError Encoder := do
  let encoder ← encoder.ensureAvailable 16
  let uuidBuffer := match value with
    | none => List.replicate 16 0
    | some value => (ofHex (undashed value)).take 16
  pure ⟨copyInto encoder.buf encoder.offset uuidBuffer, encoder.offset + 16⟩

/-- An element of an array: a number, a string or an encoder. -/
inductive Element where
  | number (value : Int)
  | string (value : Option Text)
  | object (value : Encoder)

/-- The write of one array element. A string may be null where the array was declared to hold
strings. -/
def writeElement : Element → Encoder → Except KafkaError Encoder
  | .number value => writeInt32 value
  | .string value => writeString value
  | .object value => fun encoder => encoder.writeEncoder value

/-- `array.forEach(value => this.write(value))`. -/
def writeEach {α : Type} (write : α → Encoder → Except KafkaError Encoder) :
    List α → Encoder → Except KafkaError Encoder
  | [], encoder => pure encoder
  | value :: values, encoder => do
      let encoder ← write value encoder
      encoder.writeEach write values

/-- `writeArray` of any elements; the length is that of the array unless another one is given. -/
def writeArrayOf (array : List Element) (length : Option Int) (encoder : Encoder) :
    Except KafkaError Encoder := do
  let encoder ← encoder.writeInt32 (length.getD array.length)
  encoder.writeEach writeElement array

/-- `writeNullableArray`: the length of an empty array is that of null. -/
def writeNullableArray (array : List Element) : Encoder → Except KafkaError Encoder :=
  writeArrayOf array (some (if array.length ≠ 0 then array.length else -1))

/-- `writeUVarIntArray` of encoders. -/
def writeUVarIntArray (array : Option (List Encoder)) (encoder : Encoder) :
    Except KafkaError Encoder :=
  match array with
  | none => encoder.writeUVarInt 0
  | some array => do
      let encoder ← encoder.writeUVarInt (array.length + 1)
      encoder.writeEncoderArray array

end Encoder

/-! ## Readers -/

namespace Decoder

/-- `readUVarInt`. -/
def readUVarInt : Reader Nat := fun decoder =>
  match readUVarIntFrom decoder.remaining with
  | some (value, count) => .ok (value, { decoder with offset := decoder.offset + count })
  | none =>
      .error { name := .kafkaJSNonRetriableError,
               message := "Invalid VarInt, must contain 5 bytes or less", retriable := some false }

/-- `readBoolean`. -/
def readBoolean : Reader Bool := do
  let value ← readInt8
  pure (value = 1)

/-- `readString`. -/
def readString : Reader (Option Text) := do
  let byteLength ← readInt16
  if byteLength = -1 then pure none else (fun bytes => some (Text.ofUtf8 bytes)) <$> take byteLength

/-- `readUVarIntString`. -/
def readUVarIntString : Reader (Option Text) := do
  let byteLength ← readUVarInt
  if byteLength = 0 then pure none
  else (fun bytes => some (Text.ofUtf8 bytes)) <$> take ((byteLength : Int) - 1)

/-- `readBytes` of a given length. -/
def readBytesOf (byteLength : Int) : Reader (Option Bytes) :=
  if byteLength = -1 then pure none else some <$> take byteLength

/-- `readBytes`, whose length is read first. -/
def readBytes : Reader (Option Bytes) := do
  let byteLength ← readInt32
  readBytesOf byteLength

/-- `readUVarIntBytes`. The slice ends at `offset + byteLength`, where `byteLength` counts one more
than there are bytes; the offset moves by `byteLength - 1`. -/
def readUVarIntBytes : Reader (Option Bytes) := do
  let byteLength ← readUVarInt
  if byteLength = 0 then pure none
  else
    let decoder ← get
    let stringBuffer := Protocol.slice decoder.buffer decoder.offset (decoder.offset + byteLength)
    forward ((byteLength : Int) - 1)
    pure (some stringBuffer)

/-- `readUVarIntArray`. -/
def readUVarIntArray {α : Type} (reader : Reader α) : Reader (Option (List α)) := do
  let length ← readUVarInt
  if length = 0 then pure none else some <$> readMany reader (length - 1)

/-- `readUUID`. -/
def readUUID : Reader (Option Text) := do
  let uuidBuffer ← take 16
  let hex := toHex uuidBuffer
  if hex = List.replicate 32 48 then pure none else pure (some (dashed hex))

/-- `canReadBytes`. -/
def canReadBytes (length : Int) (decoder : Decoder) : Bool :=
  (decoder.buffer.length : Int) - decoder.offset ≥ length

end Decoder

/-! ## What the writers write -/

section Writers

variable {encoder : Encoder} {data : Bytes}

/-- An unsigned varint is written. -/
theorem writes_writeUVarInt (value : Int) :
    Writes (Encoder.writeUVarInt value) (uVarIntBytes (BitVec.ofInt 32 value)) :=
  writes_writeBufferInternal _

/-- A double is written in eight bytes. -/
theorem writes_writeDouble (value : BitVec 64) :
    Writes (Encoder.writeDouble value) (bigEndian 8 value.toNat) := by
  refine Writes.of_room fun encoder data hholds hroom => ?_
  have hput := hholds.put hroom
  rw [length_bigEndian] at hroom hput
  refine ⟨_, ?_, hput, (length_copyInto _ _ _).ge⟩
  have hrange := value.isLt
  rw [putUInt, if_neg (by omega), if_neg (by rw [hholds.offset]; omega)]
  rfl

/-- A boolean is written in one byte. -/
theorem writes_writeBoolean (value : Bool) :
    Writes (Encoder.writeBoolean value) (intBytes 1 (if value then 1 else 0)) := by
  cases value
  · exact @writes_writeInt 1 0 (by decide) (by decide)
  · exact @writes_writeInt 1 1 (by decide) (by decide)

/-- Text is stored whole in the room made for it. -/
theorem storeText_ok (text : Text) (h : encoder.Holds data)
    (hroom : data.length + text.toUtf8.length ≤ encoder.buf.length) :
    ∃ next, encoder.storeText text = .ok next ∧ next.Holds (data ++ text.toUtf8) ∧
      encoder.buf.length ≤ next.buf.length := by
  refine ⟨_, ?_, h.put hroom, (length_copyInto _ _ _).ge⟩
  rw [Encoder.storeText, putText_of_room (by rw [h.offset]; exact hroom)]
  rfl

/-- A length and the text behind it, in room that is made for both at once. -/
theorem writes_lengthAndText {lead : Encoder → Except KafkaError Encoder} {bytes : Bytes}
    {width : Nat} (hlead : Writes lead bytes) (hwidth : bytes.length = width) (text : Text) :
    Writes (fun encoder => encoder.ensureAvailable (width + text.toUtf8.length) >>= fun encoder =>
      lead encoder >>= Encoder.storeText text) (bytes ++ text.toUtf8) := by
  have hlength : (bytes ++ text.toUtf8).length = width + text.toUtf8.length := by
    rw [List.length_append, hwidth]
  rw [← hlength]
  refine Writes.of_room fun encoder data h hroom => ?_
  rw [List.length_append] at hroom
  obtain ⟨next, hnext, hholds, hgrown⟩ := hlead.in_room h (by omega)
  obtain ⟨last, hlast, hdata, hkept⟩ :=
    storeText_ok text hholds (by rw [List.length_append]; omega)
  rw [List.append_assoc] at hdata
  exact ⟨last, by rw [hnext, ok_bind, hlast], hdata, by omega⟩

/-- The bytes of a string behind its length as a 16-bit integer; null is the length minus one. -/
def stringBytes (value : Option Text) : Bytes :=
  match value with
  | none => intBytes 2 (-1)
  | some text => intBytes 2 text.toUtf8.length ++ text.toUtf8

/-- A short string is written behind its length. -/
theorem writes_writeString {value : Option Text}
    (h : ∀ text ∈ value, text.toUtf8.length < 2 ^ 15) :
    Writes (Encoder.writeString value) (stringBytes value) := by
  cases value with
  | none => exact @writes_writeInt 2 (-1) (by decide) (by decide)
  | some text =>
      have hlength := h text rfl
      exact writes_lengthAndText (@writes_writeInt 2 text.toUtf8.length (by omega) (by omega))
        (length_intBytes _ _) text

/-- A nullable string is written behind a varint. -/
theorem writes_writeNullableVarIntString (value : Option Text) :
    Writes (Encoder.writeNullableVarIntString value)
      (lengthPrefixed (value.map Text.toUtf8)) := by
  cases value with
  | none => exact writes_writeVarInt (-1)
  | some text => exact writes_writeVarIntString text

/-- The bytes of a value behind its length plus one; null is the length zero. -/
def compactBytes (value : Option Bytes) : Bytes :=
  match value with
  | none => uVarIntBytes 0#32
  | some bytes => uVarIntBytes (BitVec.ofInt 32 (bytes.length + 1)) ++ bytes

/-- A nullable string is written in the compact form. -/
theorem writes_writeUVarIntString (value : Option Text) :
    Writes (Encoder.writeUVarIntString value) (compactBytes (value.map Text.toUtf8)) := by
  cases value with
  | none => exact writes_writeUVarInt 0
  | some text => exact (writes_writeUVarInt _).bind (writes_writeText text)

/-- The bytes of a value behind its length as a 32-bit integer; null is the length minus one. -/
def sizedBytes (value : Option Bytes) : Bytes :=
  match value with
  | none => intBytes 4 (-1)
  | some bytes => intBytes 4 bytes.length ++ bytes

/-- Nullable bytes are written behind their length. -/
theorem writes_writeNullableBytes {value : Option Payload}
    (h : ∀ payload ∈ value, payload.bytes.length < 2 ^ 31) :
    Writes (Encoder.writeNullableBytes value) (sizedBytes (value.map Payload.bytes)) := by
  match value with
  | none => exact @writes_writeInt 4 (-1) (by decide) (by decide)
  | some (.buffer bytes) => exact writes_writeBytes (h _ rfl)
  | some (.string text) =>
      have hlength : text.toUtf8.length < 2 ^ 31 := h _ rfl
      exact writes_lengthAndText (@writes_writeInt 4 text.toUtf8.length (by omega) (by omega))
        (length_intBytes _ _) text

/-- Nullable bytes are written in the compact form. -/
theorem writes_writeUVarIntBytes (value : Option Payload) :
    Writes (Encoder.writeUVarIntBytes value) (compactBytes (value.map Payload.bytes)) := by
  match value with
  | none =>
      -- the zero that null is written as is the same in both variable length notations
      exact writes_writeVarInt 0
  | some (.buffer bytes) => exact (writes_writeUVarInt _).bind (writes_writeBufferInternal bytes)
  | some (.string text) => exact (writes_writeUVarInt _).bind (writes_writeText text)

/-- Values are written one after the other. -/
theorem writes_writeEach {α : Type} {write : α → Encoder → Except KafkaError Encoder}
    {bytesOf : α → Bytes} {values : List α} (h : ∀ value ∈ values, Writes (write value) (bytesOf value)) :
    Writes (Encoder.writeEach write values) (values.flatMap bytesOf) := by
  induction values with
  | nil => exact Writes.pure
  | cons value values ih =>
      exact (h value List.mem_cons_self).bind
        (ih fun other hother => h other (List.mem_cons_of_mem value hother))

end Writers

end KafkaJs.Protocol
