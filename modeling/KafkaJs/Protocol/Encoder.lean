import KafkaJs.Data.Traversal
import KafkaJs.Errors
import KafkaJs.Protocol.VarInt
import Mathlib.Data.List.Forall2
import Mathlib.Data.Nat.Log

/-!
# The encoder

`protocol/encoder.js`: a buffer that is replaced by a larger one when a write does not fit, and
the offset of the next write. Writes that throw are modelled as such, and so are copies into a
buffer that is too small, which happen because `nextPowerOfTwo` works on 32 bits: it is negative
from `2 ^ 30` on, where the allocation throws, and falls back to one from `2 ^ 31` on.

`Holds` says that an encoder holds some data, and `Writes` that an operation appends given bytes:
below `2 ^ 30` bytes in total it succeeds, and below `2 ^ 31` bytes it succeeds with these bytes
or throws. `Writes.bind` composes operations.
-/

namespace KafkaJs.Protocol

open KafkaJs.Data

/-- A `Buffer` or a string. -/
inductive Payload where
  | buffer (bytes : Bytes)
  | string (text : Text)
  deriving DecidableEq

/-- The bytes of a value; those of a string are its UTF-8 bytes. -/
def Payload.bytes : Payload → Bytes
  | .buffer bytes => bytes
  | .string text => text.toUtf8

/-- `Buffer.byteLength`. -/
def byteLength (value : Payload) : Nat := value.bytes.length

/-- An encoder. -/
structure Encoder where
  buf : Bytes
  offset : Nat

/-- An error of the runtime for a value or an offset that is out of range. -/
def outOfRange : KafkaError :=
  { name := .rangeError, message := "value out of range", retriable := none }

/-- `Math.clz32`: the leading zeros of a value cut to 32 bits. -/
def clz32 (value : Nat) : Nat :=
  if value % 2 ^ 32 = 0 then 32 else 31 - (value % 2 ^ 32).log2

/-- `nextPowerOfTwo`: `1 << (31 - clz32(value) + 1)`, a signed shift on 32 bits by an amount that
counts modulo 32. -/
def nextPowerOfTwo (value : Nat) : Int := (1#32 <<< ((32 - clz32 value) % 32)).toInt

/-- `Buffer.alloc`. -/
def alloc (size : Int) : Except KafkaError Bytes :=
  if size < 0 then .error outOfRange else .ok (List.replicate size.toNat 0)

/-- `source.copy(target, start)`: what does not fit is not copied. -/
def copyInto (target : Bytes) (start : Nat) (source : Bytes) : Bytes :=
  target.take start ++ source.take (target.length - start) ++ target.drop (start + source.length)

/-- An integer that a field of `width` bytes can hold. -/
def FitsInt (width : Nat) (value : Int) : Prop :=
  -(256 ^ width / 2) ≤ value ∧ value < 256 ^ width / 2

/-- `FitsInt` is decidable by two integer comparisons. -/
instance (width : Nat) (value : Int) : Decidable (FitsInt width value) :=
  inferInstanceAs (Decidable (_ ∧ _))

/-- `buf.writeInt8`, `buf.writeInt16BE` and `buf.writeInt32BE`. -/
def putInt (width : Nat) (value : Int) (position : Nat) (buf : Bytes) : Except KafkaError Bytes :=
  if value < -(256 ^ width / 2) ∨ 256 ^ width / 2 ≤ value then .error outOfRange
  else if buf.length < position + width then .error outOfRange
  else .ok (copyInto buf position (intBytes width value))

/-- `buf.writeUInt32BE`. -/
def putUInt (width : Nat) (value : Nat) (position : Nat) (buf : Bytes) : Except KafkaError Bytes :=
  if 256 ^ width ≤ value then .error outOfRange
  else if buf.length < position + width then .error outOfRange
  else .ok (copyInto buf position (bigEndian width value))

/-- The encodings of the first characters, as many as fit whole. -/
def wholeCharacters (room : Nat) : List Char → Bytes
  | [] => []
  | char :: chars =>
      if (String.utf8EncodeChar char).length ≤ room then
        String.utf8EncodeChar char ++
          wholeCharacters (room - (String.utf8EncodeChar char).length) chars
      else []

/-- `buf.write` of a string. -/
def putText (text : Text) (position : Nat) (buf : Bytes) : Except KafkaError Bytes :=
  if buf.length < position then .error outOfRange
  else .ok (copyInto buf position (wholeCharacters (buf.length - position) text.scalars))

namespace Encoder

/-- `new Encoder()`: the default size 511 allocates 512 bytes. -/
def new : Encoder := ⟨List.replicate 512 0, 0⟩

/-- `new Encoder(initialSize)`. -/
def ofSize (initialSize : Nat) : Except KafkaError Encoder := do
  let buf ← alloc (nextPowerOfTwo initialSize)
  pure ⟨buf, 0⟩

/-- `buffer`. -/
def buffer (encoder : Encoder) : Bytes := encoder.buf.take encoder.offset

/-- `size()`. -/
def size (encoder : Encoder) : Nat := encoder.offset

/-- `ensureAvailable`. -/
def ensureAvailable (length : Nat) (encoder : Encoder) : Except KafkaError Encoder :=
  if encoder.buf.length < encoder.offset + length then do
    let newBuffer ← alloc (nextPowerOfTwo (encoder.offset + length))
    pure { encoder with buf := copyInto newBuffer 0 (encoder.buf.take encoder.offset) }
  else pure encoder

/-- `writeBufferInternal`. -/
def writeBufferInternal (buffer : Bytes) (encoder : Encoder) : Except KafkaError Encoder := do
  let encoder ← encoder.ensureAvailable buffer.length
  pure ⟨copyInto encoder.buf encoder.offset buffer, encoder.offset + buffer.length⟩

/-- The writers of fixed width signed integers. -/
def writeInt (width : Nat) (value : Int) (encoder : Encoder) : Except KafkaError Encoder := do
  let encoder ← encoder.ensureAvailable width
  let buf ← putInt width value encoder.offset encoder.buf
  pure ⟨buf, encoder.offset + width⟩

/-- `writeInt8`. -/
def writeInt8 (value : Int) : Encoder → Except KafkaError Encoder := writeInt 1 value

/-- `writeInt16`. -/
def writeInt16 (value : Int) : Encoder → Except KafkaError Encoder := writeInt 2 value

/-- `writeInt32`. -/
def writeInt32 (value : Int) : Encoder → Except KafkaError Encoder := writeInt 4 value

/-- `writeUInt32`. -/
def writeUInt32 (value : Nat) (encoder : Encoder) : Except KafkaError Encoder := do
  let encoder ← encoder.ensureAvailable 4
  let buf ← putUInt 4 value encoder.offset encoder.buf
  pure ⟨buf, encoder.offset + 4⟩

/-- The high and the low half of a 64-bit integer, each as a signed 32-bit integer. -/
def putInt64 (value : Int) (encoder : Encoder) : Except KafkaError Encoder := do
  let buf ← putInt 4 (Long.getHighBits value) encoder.offset encoder.buf
  let buf ← putInt 4 (Long.getLowBits value) (encoder.offset + 4) buf
  pure ⟨buf, encoder.offset + 8⟩

/-- `writeInt64`. -/
def writeInt64 (value : Int) (encoder : Encoder) : Except KafkaError Encoder := do
  let encoder ← encoder.ensureAvailable 8
  encoder.putInt64 value

/-- `writeVarInt`. -/
def writeVarInt (value : Int) : Encoder → Except KafkaError Encoder :=
  writeBufferInternal (varIntBytes value)

/-- `writeVarLong`. -/
def writeVarLong (value : Int) : Encoder → Except KafkaError Encoder :=
  writeBufferInternal (varLongBytes value)

/-- `this.buf.write(value, this.offset, byteLength, 'utf8')` after its length was written. -/
def writeText (text : Text) (encoder : Encoder) : Except KafkaError Encoder := do
  let encoder ← encoder.ensureAvailable text.toUtf8.length
  let buf ← putText text encoder.offset encoder.buf
  pure ⟨buf, encoder.offset + text.toUtf8.length⟩

/-- `writeVarIntString`, of a string that is not null. -/
def writeVarIntString (value : Text) (encoder : Encoder) : Except KafkaError Encoder := do
  let encoder ← encoder.writeVarInt value.toUtf8.length
  encoder.writeText value

/-- `writeVarIntBytes`. -/
def writeVarIntBytes (value : Option Payload) (encoder : Encoder) :
    Except KafkaError Encoder :=
  match value with
  | none => encoder.writeVarInt (-1)
  | some (.buffer bytes) => do
      let encoder ← encoder.writeVarInt bytes.length
      encoder.writeBufferInternal bytes
  | some (.string text) => do
      let encoder ← encoder.writeVarInt text.toUtf8.length
      encoder.writeText text

/-- `writeBytes` of a `Buffer`: the room for length and content is made at once. -/
def writeBytes (value : Bytes) (encoder : Encoder) : Except KafkaError Encoder := do
  let encoder ← encoder.ensureAvailable (4 + value.length)
  let encoder ← encoder.writeInt32 value.length
  encoder.writeBufferInternal value

/-- `writeEncoder`. -/
def writeEncoder (encoder value : Encoder) : Except KafkaError Encoder :=
  encoder.writeBufferInternal value.buffer

/-- `writeEncoderArray`. -/
def writeEncoderArray : List Encoder → Encoder → Except KafkaError Encoder
  | [], encoder => pure encoder
  | value :: values, encoder => do
      let encoder ← encoder.writeBufferInternal value.buffer
      encoder.writeEncoderArray values

/-- `writeArray` of encoders. The type that the batch passes is `'object'`, and `'undefined'` for
an empty array, of which only the length is written. -/
def writeArray (array : List Encoder) (encoder : Encoder) : Except KafkaError Encoder := do
  let encoder ← encoder.writeInt32 array.length
  encoder.writeEncoderArray array

/-- `writeVarIntArray` of encoders. -/
def writeVarIntArray (array : List Encoder) (encoder : Encoder) : Except KafkaError Encoder := do
  let encoder ← encoder.writeVarInt array.length
  encoder.writeEncoderArray array

end Encoder

/-- `sizeOfVarIntBytes`. -/
def sizeOfVarIntBytes (value : Option Payload) : Nat :=
  match value with
  | none => sizeOfVarInt (-1)
  | some value => sizeOfVarInt (byteLength value) + byteLength value

/-! ## What the writers write -/

/-- The encoder holds `data`. -/
structure Encoder.Holds (encoder : Encoder) (data : Bytes) : Prop where
  offset : encoder.offset = data.length
  content : encoder.buf.take data.length = data
  bounded : encoder.buf.length ≤ 2 ^ 30

/-- The operation appends `bytes`. It may throw only when the buffer has no room for them and the
encoder would then hold `2 ^ 30` bytes or more; nothing is said from `2 ^ 31` bytes on. -/
def Writes (op : Encoder → Except KafkaError Encoder) (bytes : Bytes) : Prop :=
  ∀ encoder data, encoder.Holds data → data.length + bytes.length < 2 ^ 31 →
    (∃ next, op encoder = .ok next ∧ next.Holds (data ++ bytes) ∧
        encoder.buf.length ≤ next.buf.length) ∨
      (2 ^ 30 ≤ data.length + bytes.length ∧
        encoder.buf.length < data.length + bytes.length ∧ ∃ error, op encoder = .error error)

namespace Encoder

variable {encoder next : Encoder} {data : Bytes}

/-- What an encoder holds fits in its buffer. -/
theorem Holds.length_le (h : encoder.Holds data) : data.length ≤ encoder.buf.length := by
  have hlength := congrArg List.length h.content
  rw [List.length_take] at hlength
  omega

/-- An encoder that holds data gives it as its buffer. -/
theorem Holds.buffer_eq (h : encoder.Holds data) : encoder.buffer = data := by
  rw [buffer, h.offset, h.content]

/-- A new encoder holds nothing. -/
theorem holds_new : new.Holds [] := by
  refine ⟨rfl, rfl, ?_⟩
  rw [new, List.length_replicate]
  decide

end Encoder

/-- A source that fits is copied as a whole. -/
theorem copyInto_of_le {target source : Bytes} {start : Nat}
    (h : start + source.length ≤ target.length) :
    copyInto target start source =
      target.take start ++ source ++ target.drop (start + source.length) := by
  have hfits : source.take (target.length - start) = source :=
    List.take_of_length_le (by omega)
  rw [copyInto, hfits]

/-- Copying keeps the length of the target. -/
@[simp] theorem length_copyInto (target : Bytes) (start : Nat) (source : Bytes) :
    (copyInto target start source).length = target.length := by
  simp only [copyInto, List.length_append, List.length_take, List.length_drop]
  omega

namespace Encoder

variable {encoder next : Encoder} {data bytes : Bytes}

/-- Copying bytes that fit behind the data appends them. -/
theorem Holds.put (h : encoder.Holds data)
    (hroom : data.length + bytes.length ≤ encoder.buf.length) :
    Holds ⟨copyInto encoder.buf encoder.offset bytes, encoder.offset + bytes.length⟩
      (data ++ bytes) := by
  refine ⟨by rw [h.offset, List.length_append], ?_, by rw [length_copyInto]; exact h.bounded⟩
  dsimp only
  rw [h.offset, copyInto_of_le hroom, h.content]
  exact List.take_left

/-- Below `2 ^ 30`, the next power of two is one. -/
theorem nextPowerOfTwo_of_lt {value : Nat} (hpos : 0 < value) (h : value < 2 ^ 30) :
    ∃ size : Nat, nextPowerOfTwo value = size ∧ value < size ∧ size ≤ 2 ^ 30 := by
  have hlog : value.log2 < 30 := (Nat.log2_lt (by omega)).mpr h
  have hshift : 32 - clz32 value = value.log2 + 1 := by
    rw [clz32, Nat.mod_eq_of_lt (by omega), if_neg (by omega)]
    omega
  have hpower : ∀ k ≤ 30, (1#32 <<< (k % 32)).toInt = ((2 ^ k : Nat) : Int) := by decide
  refine ⟨2 ^ (value.log2 + 1), ?_, Nat.lt_log2_self, Nat.pow_le_pow_right (by decide) hlog⟩
  rw [nextPowerOfTwo, hshift]
  exact hpower _ hlog

/-- From `2 ^ 30` on, the shift overflows to a negative number. -/
theorem nextPowerOfTwo_neg {value : Nat} (hlower : 2 ^ 30 ≤ value) (hupper : value < 2 ^ 31) :
    nextPowerOfTwo value < 0 := by
  have hlog : value.log2 = 30 := by
    have hlt : value.log2 < 31 := (Nat.log2_lt (by omega)).mpr hupper
    have hle : 30 ≤ value.log2 := (Nat.le_log2 (by omega)).mpr hlower
    omega
  have hshift : 32 - clz32 value = 31 := by
    rw [clz32, Nat.mod_eq_of_lt (by omega), if_neg (by omega), hlog]
  rw [nextPowerOfTwo, hshift]
  decide

/-- Making room keeps the data, or throws where `2 ^ 30` bytes would be needed. -/
theorem ensureAvailable_cases (h : encoder.Holds data) {length : Nat}
    (hlength : data.length + length < 2 ^ 31) :
    (∃ next, encoder.ensureAvailable length = .ok next ∧ next.Holds data ∧
        data.length + length ≤ next.buf.length ∧ encoder.buf.length ≤ next.buf.length) ∨
      (2 ^ 30 ≤ data.length + length ∧ encoder.buf.length < data.length + length ∧
        ∃ error, encoder.ensureAvailable length = .error error) := by
  unfold ensureAvailable
  split
  · next hfull =>
      rw [h.offset] at hfull ⊢
      have hle := h.length_le
      by_cases hsmall : data.length + length < 2 ^ 30
      · obtain ⟨size, hsize, hlarge, hbounded⟩ := nextPowerOfTwo_of_lt (by omega) hsmall
        have halloc : alloc (size : Int) = .ok (List.replicate size 0) := by
          rw [alloc, if_neg (by omega), Int.toNat_natCast]
        refine Or.inl ⟨⟨copyInto (List.replicate size 0) 0 data, data.length⟩, ?_, ?_, ?_, ?_⟩
        · rw [hsize, halloc, h.content]
          rfl
        · refine ⟨rfl, ?_, by simpa using hbounded⟩
          rw [copyInto_of_le (by rw [List.length_replicate]; omega)]
          exact List.take_left
        · rw [length_copyInto, List.length_replicate]
          omega
        · rw [length_copyInto, List.length_replicate]
          omega
      · refine Or.inr ⟨by omega, hfull, outOfRange, ?_⟩
        rw [alloc, if_pos (nextPowerOfTwo_neg (by omega) hlength)]
        rfl
  · next hfits =>
      rw [h.offset] at hfits
      exact Or.inl ⟨encoder, rfl, h, by omega, le_refl _⟩

/-- Growing to `2 ^ 30` bytes or more throws. -/
theorem ensureAvailable_error (h : encoder.Holds data) {length : Nat}
    (hfull : encoder.buf.length < data.length + length) (hlower : 2 ^ 30 ≤ data.length + length)
    (hupper : data.length + length < 2 ^ 31) :
    encoder.ensureAvailable length = .error outOfRange := by
  rw [ensureAvailable, h.offset, if_pos hfull, alloc, if_pos (nextPowerOfTwo_neg hlower hupper)]
  rfl

/-- There is nothing to do where there is room. -/
theorem ensureAvailable_of_le (h : encoder.Holds data) {length : Nat}
    (hroom : data.length + length ≤ encoder.buf.length) :
    encoder.ensureAvailable length = .ok encoder := by
  rw [ensureAvailable, h.offset, if_neg (by omega)]
  rfl

end Encoder

namespace Writes

variable {op first second : Encoder → Except KafkaError Encoder} {bytes head tail : Bytes}

/-- An operation that makes room and then stores its bytes writes them. -/
theorem of_room {store : Encoder → Except KafkaError Encoder}
    (hstore : ∀ encoder data, encoder.Holds data →
      data.length + bytes.length ≤ encoder.buf.length →
      ∃ next, store encoder = .ok next ∧ next.Holds (data ++ bytes) ∧
        encoder.buf.length ≤ next.buf.length) :
    Writes (fun encoder => encoder.ensureAvailable bytes.length >>= store) bytes := by
  intro encoder data h hlength
  rcases Encoder.ensureAvailable_cases h hlength with
    ⟨roomy, hroomy, hholds, hroom, hgrown⟩ | ⟨hlarge, hfull, error, herror⟩
  · obtain ⟨next, hnext, hdata, hkept⟩ := hstore roomy data hholds hroom
    exact Or.inl ⟨next, by simp only [hroomy]; exact hnext, hdata, by omega⟩
  · exact Or.inr ⟨hlarge, hfull, error, by simp only [herror]; rfl⟩

/-- A write without bytes that leaves the encoder as it is. -/
theorem pure : Writes Pure.pure [] := by
  intro encoder data h _
  exact Or.inl ⟨encoder, rfl, by simpa using h, le_refl _⟩

/-- Two writes, one after the other. -/
theorem bind (hfirst : Writes first head) (hsecond : Writes second tail) :
    Writes (fun encoder => first encoder >>= second) (head ++ tail) := by
  intro encoder data h hlength
  rw [List.length_append] at hlength ⊢
  rcases hfirst encoder data h (by omega) with
    ⟨middle, hmiddle, hholds, hgrown⟩ | ⟨hlarge, hfull, error, herror⟩
  · have hmore : (data ++ head).length + tail.length < 2 ^ 31 := by
      rw [List.length_append]
      omega
    rcases hsecond middle (data ++ head) hholds hmore with
      ⟨next, hnext, hdata, hmoreGrown⟩ | ⟨hlarge, hfull, error, herror⟩
    · rw [List.append_assoc] at hdata
      exact Or.inl ⟨next, by simp only [hmiddle]; exact hnext, hdata, by omega⟩
    · rw [List.length_append] at hlarge hfull
      exact Or.inr ⟨by omega, by omega, error, by simp only [hmiddle]; exact herror⟩
  · exact Or.inr ⟨by omega, by omega, error, by simp only [herror]; rfl⟩

/-- A write for which there is room succeeds and stays in the buffer. -/
theorem in_room (hop : Writes op bytes) {encoder : Encoder} {data : Bytes}
    (h : encoder.Holds data) (hroom : data.length + bytes.length ≤ encoder.buf.length) :
    ∃ next, op encoder = .ok next ∧ next.Holds (data ++ bytes) ∧
      encoder.buf.length ≤ next.buf.length := by
  have hbounded := h.bounded
  rcases hop encoder data h (by omega) with hok | ⟨_, hfull, _⟩
  · exact hok
  · omega

end Writes

/-! ## The single writers -/

section Writers

variable {encoder : Encoder} {data bytes : Bytes}

/-- A buffer is written as it is. -/
theorem writes_writeBufferInternal (buffer : Bytes) :
    Writes (Encoder.writeBufferInternal buffer) buffer :=
  Writes.of_room fun _ _ h hroom => ⟨_, rfl, h.put hroom, (length_copyInto _ _ _).ge⟩

/-- A varint is written. -/
theorem writes_writeVarInt (value : Int) : Writes (Encoder.writeVarInt value) (varIntBytes value) :=
  writes_writeBufferInternal _

/-- A varlong is written. -/
theorem writes_writeVarLong (value : Int) :
    Writes (Encoder.writeVarLong value) (varLongBytes value) :=
  writes_writeBufferInternal _

/-- An integer within its bounds is stored if there is room. -/
theorem putInt_of_bounds {width position : Nat} {value : Int} {buf : Bytes}
    (hlower : -(256 ^ width / 2) ≤ value) (hupper : value < 256 ^ width / 2)
    (hroom : position + width ≤ buf.length) :
    putInt width value position buf = .ok (copyInto buf position (intBytes width value)) := by
  rw [putInt, if_neg (by omega), if_neg (by omega)]

/-- An integer that fits the width is written in two's complement. -/
theorem writes_writeInt {width : Nat} {value : Int} (hlower : -(256 ^ width / 2) ≤ value)
    (hupper : value < 256 ^ width / 2) :
    Writes (Encoder.writeInt width value) (intBytes width value) := by
  have hwidth : (intBytes width value).length = width := length_intBytes width value
  have hwrites : Writes (fun encoder =>
      encoder.ensureAvailable (intBytes width value).length >>= fun encoder => do
        let buf ← putInt width value encoder.offset encoder.buf
        pure ⟨buf, encoder.offset + width⟩) (intBytes width value) := by
    refine Writes.of_room fun encoder data h hroom => ?_
    have hput := h.put hroom
    rw [hwidth] at hroom hput
    refine ⟨_, ?_, hput, (length_copyInto _ _ _).ge⟩
    rw [putInt_of_bounds hlower hupper (by rw [h.offset]; exact hroom)]
    rfl
  rw [hwidth] at hwrites
  exact hwrites

/-- An unsigned integer below `2 ^ 32` is written in four bytes. -/
theorem writes_writeUInt32 {value : Nat} (h : value < 2 ^ 32) :
    Writes (Encoder.writeUInt32 value) (bigEndian 4 value) := by
  refine Writes.of_room fun encoder data hholds hroom => ?_
  have hput := hholds.put hroom
  rw [length_bigEndian] at hroom hput
  refine ⟨_, ?_, hput, (length_copyInto _ _ _).ge⟩
  rw [putUInt, if_neg (by omega), if_neg (by rw [hholds.offset]; omega)]
  rfl

/-- The bytes of a 64-bit integer: the high half, then the low half. -/
def int64Bytes (value : Int) : Bytes :=
  intBytes 4 (Long.getHighBits value) ++ intBytes 4 (Long.getLowBits value)

/-- An `int64` has eight bytes. -/
@[simp] theorem length_int64Bytes (value : Int) : (int64Bytes value).length = 8 := by
  simp [int64Bytes]

/-- The low 32 bits of a number fit in an `int32`. -/
theorem asIntN_bounds (value : Int) :
    -(256 ^ 4 / 2) ≤ Long.asIntN 32 value ∧ Long.asIntN 32 value < 256 ^ 4 / 2 := by
  have hlower := @Int.le_bmod value (2 ^ 32) (by decide)
  have hupper := @Int.bmod_lt value (2 ^ 32) (by decide)
  rw [Long.asIntN]
  omega

/-- The two halves are stored one after the other in the room for both. -/
theorem putInt64_ok (value : Int) (h : encoder.Holds data)
    (hroom : data.length + 8 ≤ encoder.buf.length) :
    ∃ next, encoder.putInt64 value = .ok next ∧ next.Holds (data ++ int64Bytes value) ∧
      next.buf.length = encoder.buf.length := by
  obtain ⟨hhighLower, hhighUpper⟩ : -(256 ^ 4 / 2) ≤ Long.getHighBits value ∧
      Long.getHighBits value < 256 ^ 4 / 2 := asIntN_bounds (Long.shiftRight value 32)
  obtain ⟨hlowLower, hlowUpper⟩ : -(256 ^ 4 / 2) ≤ Long.getLowBits value ∧
      Long.getLowBits value < 256 ^ 4 / 2 := asIntN_bounds value
  have hhigh := h.put (show data.length + (intBytes 4 (Long.getHighBits value)).length ≤
    encoder.buf.length by rw [length_intBytes]; omega)
  have hboth := hhigh.put (show (data ++ intBytes 4 (Long.getHighBits value)).length +
    (intBytes 4 (Long.getLowBits value)).length ≤ _ by simp; omega)
  rw [List.append_assoc] at hboth
  simp only [length_intBytes] at hboth
  refine ⟨_, ?_, hboth, by simp⟩
  rw [Encoder.putInt64, putInt_of_bounds hhighLower hhighUpper (by rw [h.offset]; omega), ok_bind,
    putInt_of_bounds hlowLower hlowUpper (by rw [h.offset, length_copyInto]; omega)]
  rfl

/-- An `int64` is written as its two halves. -/
theorem writes_writeInt64 (value : Int) : Writes (Encoder.writeInt64 value) (int64Bytes value) :=
  Writes.of_room fun _ _ h hroom => by
    obtain ⟨next, hnext, hholds, hkept⟩ := putInt64_ok value h (by simpa using hroom)
    exact ⟨next, hnext, hholds, hkept.ge⟩

/-- With enough room all characters are whole. -/
theorem wholeCharacters_of_le {room : Nat} {chars : List Char}
    (h : (chars.flatMap String.utf8EncodeChar).length ≤ room) :
    wholeCharacters room chars = chars.flatMap String.utf8EncodeChar := by
  induction chars generalizing room with
  | nil => rfl
  | cons char chars ih =>
      rw [List.flatMap_cons, List.length_append] at h
      rw [wholeCharacters, if_pos (by omega), ih (by omega), List.flatMap_cons]

/-- With enough room a text is stored whole. -/
theorem putText_of_room {text : Text} {position : Nat} {buf : Bytes}
    (hroom : position + text.toUtf8.length ≤ buf.length) :
    putText text position buf = .ok (copyInto buf position text.toUtf8) := by
  have hwhole : wholeCharacters (buf.length - position) text.scalars = text.toUtf8 := by
    refine wholeCharacters_of_le ?_
    show text.toUtf8.length ≤ _
    omega
  rw [putText, if_neg (by omega), hwhole]

/-- A text is written in UTF-8. -/
theorem writes_writeText (text : Text) : Writes (Encoder.writeText text) text.toUtf8 := by
  refine Writes.of_room fun encoder data h hroom => ?_
  refine ⟨_, ?_, h.put hroom, (length_copyInto _ _ _).ge⟩
  rw [putText_of_room (by rw [h.offset]; exact hroom)]
  rfl

/-- The bytes of a length prefixed value; null is the length minus one. -/
def lengthPrefixed (value : Option Bytes) : Bytes :=
  match value with
  | none => varIntBytes (-1)
  | some bytes => varIntBytes bytes.length ++ bytes

/-- A string is written behind a varint. -/
theorem writes_writeVarIntString (value : Text) :
    Writes (Encoder.writeVarIntString value) (lengthPrefixed (some value.toUtf8)) :=
  (writes_writeVarInt _).bind (writes_writeText value)

/-- Nullable bytes are written behind a varint. -/
theorem writes_writeVarIntBytes (value : Option Payload) :
    Writes (Encoder.writeVarIntBytes value) (lengthPrefixed (value.map Payload.bytes)) := by
  cases value with
  | none => exact writes_writeVarInt (-1)
  | some value =>
      cases value with
      | buffer bytes => exact (writes_writeVarInt _).bind (writes_writeBufferInternal bytes)
      | string text => exact (writes_writeVarInt _).bind (writes_writeText text)

/-- The size computed ahead is the number of bytes written. -/
theorem sizeOfVarIntBytes_eq (value : Option Payload) :
    sizeOfVarIntBytes value = (lengthPrefixed (value.map Payload.bytes)).length := by
  cases value with
  | none => exact sizeOfVarInt_eq (-1)
  | some value =>
      show sizeOfVarInt (byteLength value) + byteLength value =
        (varIntBytes value.bytes.length ++ value.bytes).length
      rw [sizeOfVarInt_eq, List.length_append]
      rfl

/-- Bytes behind their length as a 32-bit integer. -/
theorem writes_writeBytes {value : Bytes} (h : value.length < 2 ^ 31) :
    Writes (Encoder.writeBytes value) (intBytes 4 value.length ++ value) := by
  have hlength : (intBytes 4 value.length ++ value).length = 4 + value.length := by simp
  have hboth := (@writes_writeInt 4 value.length (by omega) (by omega)).bind
    (writes_writeBufferInternal value)
  have hwrites := Writes.of_room fun _ _ hholds hroom => hboth.in_room hholds hroom
  rw [hlength] at hwrites
  exact hwrites

/-- Encoders that hold `contents`, in order. -/
abbrev HoldAll (encoders : List Encoder) (contents : List Bytes) : Prop :=
  List.Forall₂ Encoder.Holds encoders contents

/-- The contents of encoders are written one after the other. -/
theorem writes_writeEncoderArray {encoders : List Encoder} {contents : List Bytes}
    (h : HoldAll encoders contents) :
    Writes (Encoder.writeEncoderArray encoders) contents.flatten := by
  induction h with
  | nil => exact Writes.pure
  | @cons value content _ _ hhead _ ih =>
      have hfirst := writes_writeBufferInternal value.buffer
      nth_rewrite 2 [hhead.buffer_eq] at hfirst
      exact hfirst.bind ih

/-- An array of encoders behind its length as a 32-bit integer. -/
theorem writes_writeArray {encoders : List Encoder} {contents : List Bytes}
    (h : HoldAll encoders contents) (hlength : contents.length < 2 ^ 31) :
    Writes (Encoder.writeArray encoders) (intBytes 4 contents.length ++ contents.flatten) := by
  rw [← h.length_eq] at hlength ⊢
  exact (@writes_writeInt 4 encoders.length (by omega) (by omega)).bind
    (writes_writeEncoderArray h)

/-- An array of encoders behind its length as a variable length integer. -/
theorem writes_writeVarIntArray {encoders : List Encoder} {contents : List Bytes}
    (h : HoldAll encoders contents) :
    Writes (Encoder.writeVarIntArray encoders)
      (varIntBytes contents.length ++ contents.flatten) := by
  rw [← h.length_eq]
  exact (writes_writeVarInt encoders.length).bind (writes_writeEncoderArray h)

end Writers

/-- A list takes at least as many bytes as it has elements, if each takes some. -/
theorem length_le_flatMap {α : Type} {items : List α} {bytesOf : α → Bytes}
    (h : ∀ item ∈ items, 0 < (bytesOf item).length) :
    items.length ≤ (items.flatMap bytesOf).length := by
  induction items with
  | nil => simp
  | cons item items ih =>
      have hone := h item List.mem_cons_self
      have hrest := ih fun other hother => h other (List.mem_cons_of_mem item hother)
      simp only [List.flatMap_cons, List.length_append, List.length_cons]
      omega

/-- The bytes of an item are no more than those of all items. -/
theorem length_le_flatMap_of_mem {α : Type} {items : List α} {bytesOf : α → Bytes} {item : α}
    (h : item ∈ items) : (bytesOf item).length ≤ (items.flatMap bytesOf).length := by
  rw [List.flatMap_def]
  exact (List.sublist_flatten_of_mem (List.mem_map_of_mem h)).length_le

/-! ## Whole encoders -/

/-- A fresh encoder built up to hold `bytes`; it may throw only from `2 ^ 30` bytes on. -/
def Builds (result : Except KafkaError Encoder) (bytes : Bytes) : Prop :=
  bytes.length < 2 ^ 31 →
    (∃ encoder, result = .ok encoder ∧ encoder.Holds bytes) ∨
      (2 ^ 30 ≤ bytes.length ∧ ∃ error, result = .error error)

/-- Writing into a fresh encoder. -/
theorem Writes.builds {op : Encoder → Except KafkaError Encoder} {bytes : Bytes}
    (h : Writes op bytes) : Builds (op Encoder.new) bytes := by
  intro hlength
  rcases h Encoder.new [] Encoder.holds_new (by simpa using hlength) with
    ⟨next, hnext, hholds, _⟩ | ⟨hlarge, _, herror⟩
  · exact Or.inl ⟨next, hnext, by simpa using hholds⟩
  · exact Or.inr ⟨by simpa using hlarge, herror⟩

/-- Below `2 ^ 30` bytes the encoder is built. -/
theorem Builds.ok {result : Except KafkaError Encoder} {bytes : Bytes} (h : Builds result bytes)
    (hlength : bytes.length < 2 ^ 30) : ∃ encoder, result = .ok encoder ∧ encoder.Holds bytes := by
  rcases h (by omega) with hok | ⟨hlarge, _⟩
  · exact hok
  · omega

/-- Below `2 ^ 31` bytes an encoder that is built holds the bytes, at most `2 ^ 30` of them. -/
theorem Builds.holds {result : Except KafkaError Encoder} {bytes : Bytes} {encoder : Encoder}
    (h : Builds result bytes) (hlength : bytes.length < 2 ^ 31) (hok : result = .ok encoder) :
    encoder.Holds bytes := by
  rcases h hlength with ⟨other, hother, hholds⟩ | ⟨_, error, herror⟩
  · cases hok.symm.trans hother
    exact hholds
  · cases hok.symm.trans herror

/-- An encoder built from a first one that goes into it. -/
theorem Builds.bind {result : Except KafkaError Encoder} {inner bytes : Bytes}
    {next : Encoder → Except KafkaError Encoder} (h : Builds result inner)
    (hnext : ∀ encoder, encoder.Holds inner → Builds (next encoder) bytes)
    (hlength : inner.length ≤ bytes.length) : Builds (result >>= next) bytes := by
  intro hbytes
  rcases h (by omega) with ⟨encoder, hencoder, hholds⟩ | ⟨hlarge, error, herror⟩
  · rw [hencoder, ok_bind]
    exact hnext encoder hholds hbytes
  · exact Or.inr ⟨by omega, error, by rw [herror, error_bind]⟩

/-- Building one encoder for each item of a list. -/
theorem builds_mapM {α : Type} {build : α → Except KafkaError Encoder} {bytesOf : α → Bytes}
    {items : List α} (h : ∀ item ∈ items, Builds (build item) (bytesOf item))
    (hlength : (items.flatMap bytesOf).length < 2 ^ 31) :
    (∃ encoders, items.mapM build = .ok encoders ∧ HoldAll encoders (items.map bytesOf)) ∨
      (2 ^ 30 ≤ (items.flatMap bytesOf).length ∧ ∃ error, items.mapM build = .error error) := by
  induction items with
  | nil => exact Or.inl ⟨[], rfl, List.Forall₂.nil⟩
  | cons item items ih =>
      rw [List.flatMap_cons, List.length_append] at hlength ⊢
      rw [List.mapM_cons]
      rcases h item List.mem_cons_self (by omega) with
        ⟨encoder, hencoder, hholds⟩ | ⟨hlarge, error, herror⟩
      · rcases ih (fun other hother => h other (List.mem_cons_of_mem item hother)) (by omega) with
          ⟨encoders, hencoders, hall⟩ | ⟨hlarge, error, herror⟩
        · exact Or.inl ⟨encoder :: encoders, by rw [hencoder, hencoders]; rfl, hall.cons hholds⟩
        · exact Or.inr ⟨by omega, error, by rw [hencoder, herror]; rfl⟩
      · exact Or.inr ⟨by omega, error, by rw [herror]; rfl⟩

/-- Writing an array of encoders that are built on the spot. -/
theorem writes_built {α : Type} {build : α → Except KafkaError Encoder} {bytesOf : α → Bytes}
    {items : List α} {write : List Encoder → Encoder → Except KafkaError Encoder} {lead : Bytes}
    (hlead : lead ≠ []) (h : ∀ item ∈ items, Builds (build item) (bytesOf item))
    (hwrite : ∀ encoders, HoldAll encoders (items.map bytesOf) →
      Writes (write encoders) (lead ++ (items.map bytesOf).flatten)) :
    Writes (fun encoder => items.mapM build >>= fun encoders => write encoders encoder)
      (lead ++ (items.map bytesOf).flatten) := by
  intro encoder data hholds hlength
  have hpos : 0 < lead.length := List.length_pos_iff.mpr hlead
  have htotal : (lead ++ (items.map bytesOf).flatten).length =
      lead.length + (items.flatMap bytesOf).length := by
    rw [List.length_append, List.flatMap_def]
  rcases builds_mapM h (by omega) with ⟨encoders, hencoders, hall⟩ | ⟨hlarge, error, herror⟩
  · simp only [hencoders]
    exact hwrite encoders hall encoder data hholds hlength
  · have hbounded := hholds.bounded
    exact Or.inr ⟨by omega, by omega, error, by simp only [herror]; rfl⟩

end KafkaJs.Protocol
