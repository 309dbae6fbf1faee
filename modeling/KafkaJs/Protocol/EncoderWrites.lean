import KafkaJs.Execution.Appending
import KafkaJs.Protocol.ReturnedWrites

/-!
# Sequences of writes

The writers of `protocol/encoder.js` are called one after the other on one encoder, which makes
room in its buffer as it goes. A `Write` is one such call; `Write.encoding` says which bytes it
stands for, without any encoder, and that it stands for none where its value does not fit the
field, which makes the writer throw.

`Encoder.Represents` is the invariant: the buffer starts with the bytes written so far, and holds
zeros behind them. The zeros matter because `writeUUID` moves the offset by sixteen bytes even
where it copies fewer.
-/

namespace KafkaJs.Protocol

open KafkaJs.Data KafkaJs.Execution

/-! ## Writes -/

/-- The bytes of any text that is written as a UUID: those of its hexadecimal digits, at most
sixteen of them and filled up with zeros. -/
def paddedUuid (value : Option Text) : Bytes :=
  uuidBytes value ++ List.replicate (16 - (uuidBytes value).length) 0

/-- A call of a writer, with its argument. -/
inductive Write where
  | int8 (value : Int)
  | int16 (value : Int)
  | int32 (value : Int)
  | uInt32 (value : Nat)
  | int64 (value : Int)
  | double (value : BitVec 64)
  | boolean (value : Bool)
  | string (value : Option Text)
  | varIntString (value : Option Text)
  | uVarIntString (value : Option Text)
  | bytes (value : Option Payload)
  | varIntBytes (value : Option Payload)
  | uVarIntBytes (value : Option Payload)
  | encoder (value : Encoder)
  | encoderArray (value : List Encoder)
  | buffer (value : Bytes)
  | nullableArray (array : List Encoder.Element)
  | array (array : List Encoder.Element) (length : Option Int)
  | varIntArray (array : List Encoder)
  | uVarIntArray (array : Option (List Encoder))
  | varInt (value : Int)
  | uVarInt (value : Int)
  | varLong (value : Int)
  | uuid (value : Option Text)

namespace Write

/-- Make the call on an encoder. -/
def run : Write → Encoder → Except KafkaError Encoder
  | int8 value => Encoder.writeInt8 value
  | int16 value => Encoder.writeInt16 value
  | int32 value => Encoder.writeInt32 value
  | uInt32 value => Encoder.writeUInt32 value
  | int64 value => Encoder.writeInt64 value
  | double value => Encoder.writeDouble value
  | boolean value => Encoder.writeBoolean value
  | string value => Encoder.writeString value
  | varIntString value => Encoder.writeNullableVarIntString value
  | uVarIntString value => Encoder.writeUVarIntString value
  | bytes value => Encoder.writeNullableBytes value
  | varIntBytes value => Encoder.writeVarIntBytes value
  | uVarIntBytes value => Encoder.writeUVarIntBytes value
  | encoder value => fun encoder => encoder.writeEncoder value
  | encoderArray value => Encoder.writeEncoderArray value
  | buffer value => Encoder.writeBuffer value
  | nullableArray elements => Encoder.writeNullableArray elements
  | array elements length => Encoder.writeArrayOf elements length
  | varIntArray encoders => Encoder.writeVarIntArray encoders
  | uVarIntArray encoders => Encoder.writeUVarIntArray encoders
  | varInt value => Encoder.writeVarInt value
  | uVarInt value => Encoder.writeUVarInt value
  | varLong value => Encoder.writeVarLong value
  | uuid value => Encoder.writeUUID value

/-- The bytes of an integer that fits the width. -/
def fixedWidth (width : Nat) (value : Int) : Option Bytes :=
  if FitsInt width value then some (intBytes width value) else none

/-- The bytes of a value behind its length, which has to fit the width; null is the length minus
one. -/
def sized (width : Nat) (value : Option Bytes) : Option Bytes :=
  match value with
  | none => fixedWidth width (-1)
  | some content => (fixedWidth width content.length).map fun lead => lead ++ content

/-- The bytes of an array element. -/
def elementEncoding : Encoder.Element → Option Bytes
  | .number value => fixedWidth 4 value
  | .string value => sized 2 (value.map Text.toUtf8)
  | .object value => some value.buffer

/-- The bytes of an array behind a given length. -/
def arrayEncoding (length : Int) (elements : List Encoder.Element) : Option Bytes :=
  (fixedWidth 4 length).bind fun lead =>
    (contents elementEncoding elements).map fun content => lead ++ content

/-- The bytes that a call stands for, if its values fit their fields. Integers of variable length
and 64-bit integers are cut to their width, and an encoder stands for what it holds. -/
def encoding : Write → Option Bytes
  | int8 value => fixedWidth 1 value
  | int16 value => fixedWidth 2 value
  | int32 value => fixedWidth 4 value
  | uInt32 value => if value < 2 ^ 32 then some (bigEndian 4 value) else none
  | int64 value => some (int64Bytes value)
  | double value => some (bigEndian 8 value.toNat)
  | boolean value => some [if value then 1 else 0]
  | string value => sized 2 (value.map Text.toUtf8)
  | varIntString value => some (lengthPrefixed (value.map Text.toUtf8))
  | uVarIntString value => some (compactBytes (value.map Text.toUtf8))
  | bytes value => sized 4 (value.map Payload.bytes)
  | varIntBytes value => some (lengthPrefixed (value.map Payload.bytes))
  | uVarIntBytes value => some (compactBytes (value.map Payload.bytes))
  | encoder value => some value.buffer
  | encoderArray value => some (value.flatMap Encoder.buffer)
  | buffer value => some value
  | nullableArray elements =>
      arrayEncoding (if elements.length ≠ 0 then elements.length else -1) elements
  | array elements length => arrayEncoding (length.getD elements.length) elements
  | varIntArray encoders =>
      some (Protocol.varIntBytes encoders.length ++ encoders.flatMap Encoder.buffer)
  | uVarIntArray none => some (Protocol.uVarIntBytes 0#32)
  | uVarIntArray (some encoders) =>
      some (Protocol.uVarIntBytes (BitVec.ofInt 32 (encoders.length + 1)) ++
        encoders.flatMap Encoder.buffer)
  | varInt value => some (Protocol.varIntBytes value)
  | uVarInt value => some (Protocol.uVarIntBytes (BitVec.ofInt 32 value))
  | varLong value => some (varLongBytes value)
  | uuid value => some (paddedUuid value)

/-- `new Encoder(initialSize)`, and the calls on it in order. -/
def encode (initialSize : Nat) (writes : List Write) : Except KafkaError Encoder :=
  Encoder.ofSize initialSize >>= writes.foldlM fun encoder write => write.run encoder

/-- After the writes the offset is within the buffer, and the encoder holds the bytes of each of
them, one behind the other. They throw if one of them has a value that does not fit its field. -/
def Kept (initialSize : Nat) (writes : List Write) : Prop :=
  match contents encoding writes with
  | some content =>
      ∃ encoder, encode initialSize writes = .ok encoder ∧
        encoder.offset ≤ encoder.buf.length ∧ encoder.buffer = content
  | none => ∃ error, encode initialSize writes = .error error

/-- Encoders of the initial size keep all writes of less than `2 ^ 30` bytes in total, at every
point of the sequence. -/
def KeepsWrites (initialSize : Nat) : Prop :=
  ∀ writes : List Write, weight encoding writes < 2 ^ 30 →
    ∀ done : List Write, done <+: writes → Kept initialSize done

end Write

/-! ## The invariant -/

/-- The buffer holds zeros from the offset on. -/
def Encoder.Blank (encoder : Encoder) : Prop := ∀ byte ∈ encoder.buf.drop encoder.offset, byte = 0

/-- The encoder holds `data`, with zeros behind it. -/
structure Encoder.Represents (encoder : Encoder) (data : Bytes) : Prop extends
    encoder.Holds data where
  blank : encoder.Blank

/-- The operation leaves zeros behind the offset where it returns. -/
def KeepsBlank (op : Encoder → Except KafkaError Encoder) : Prop :=
  ∀ encoder next, encoder.Blank → op encoder = .ok next → next.Blank

/-- The operation appends `bytes`, as long as the encoder stays below `2 ^ 30` bytes. -/
abbrev Encodes (op : Encoder → Except KafkaError Encoder) (bytes : Bytes) : Prop :=
  Appends Encoder.Represents (2 ^ 30) op bytes

section Blank

variable {encoder : Encoder} {first second : Encoder → Except KafkaError Encoder} {bytes : Bytes}

/-- Behind a copy the target is as it was. -/
theorem mem_drop_copyInto {target source : Bytes} {start width : Nat} {byte : UInt8}
    (hwidth : source.length ≤ width)
    (h : byte ∈ (copyInto target start source).drop (start + width)) : byte ∈ target.drop start := by
  have hfront : (target.take start ++ source.take (target.length - start)).length ≤
      start + width := by
    rw [List.length_append, List.length_take, List.length_take]
    omega
  rw [copyInto, List.drop_append, List.drop_eq_nil_of_le hfront, List.nil_append] at h
  have hback := List.mem_of_mem_drop h
  rw [← List.drop_drop] at hback
  exact List.mem_of_mem_drop hback

/-- Storing no more bytes than the offset moves by keeps the zeros behind it. -/
theorem Encoder.Blank.store {width : Nat} (hblank : encoder.Blank) (hwidth : bytes.length ≤ width) :
    Encoder.Blank ⟨copyInto encoder.buf encoder.offset bytes, encoder.offset + width⟩ :=
  fun byte hbyte => hblank byte (mem_drop_copyInto hwidth hbyte)

/-- A command and then another, neither of which touches the blank part. -/
theorem KeepsBlank.bind (hfirst : KeepsBlank first) (hsecond : KeepsBlank second) :
    KeepsBlank (fun encoder => first encoder >>= second) := by
  intro encoder next hblank h
  obtain ⟨middle, hmiddle, hnext⟩ := bind_eq_ok h
  exact hsecond middle next (hfirst encoder middle hblank hmiddle) hnext

/-- A new buffer holds zeros. -/
theorem mem_of_alloc {size : Int} {newBuffer : Bytes} {byte : UInt8}
    (h : alloc size = .ok newBuffer) (hbyte : byte ∈ newBuffer) : byte = 0 := by
  unfold alloc at h
  split at h
  · cases h
  · cases h
    exact List.eq_of_mem_replicate hbyte

/-- Making room leaves what is behind the offset blank. -/
theorem keepsBlank_ensureAvailable (length : Nat) : KeepsBlank (Encoder.ensureAvailable length) := by
  intro encoder next hblank h
  unfold Encoder.ensureAvailable at h
  split at h
  · obtain ⟨newBuffer, halloc, hnext⟩ := bind_eq_ok h
    cases hnext
    intro byte hbyte
    have hkept : (encoder.buf.take encoder.offset).length ≤ encoder.offset := by
      rw [List.length_take]
      omega
    have hnew : byte ∈ (copyInto newBuffer 0 (encoder.buf.take encoder.offset)).drop
        (0 + encoder.offset) := by
      rw [Nat.zero_add]
      exact hbyte
    exact mem_of_alloc halloc (List.mem_of_mem_drop (mem_drop_copyInto hkept hnew))
  · cases h
    exact hblank

/-- A write that has returned has copied some bytes to the offset. -/
theorem keepsBlank_put {put : Nat → Bytes → Except KafkaError Bytes} {width : Nat}
    (hput : ∀ position buf result, put position buf = .ok result →
      ∃ bytes, bytes.length ≤ width ∧ result = copyInto buf position bytes) :
    KeepsBlank (fun encoder => put encoder.offset encoder.buf >>= fun buf =>
      pure ⟨buf, encoder.offset + width⟩) := by
  intro encoder next hblank h
  obtain ⟨buf, hbuf, hnext⟩ := bind_eq_ok h
  cases hnext
  obtain ⟨bytes, hwidth, rfl⟩ := hput _ _ _ hbuf
  exact hblank.store hwidth

/-- A fixed-width store that succeeds has put the bytes of the integer at its place. -/
theorem putInt_result {width position : Nat} {value : Int} {buf result : Bytes}
    (h : putInt width value position buf = .ok result) :
    result = copyInto buf position (intBytes width value) := by
  unfold putInt at h
  split at h
  · cases h
  · split at h
    · cases h
    · cases h
      rfl

/-- An unsigned store that succeeds has put the big-endian bytes at its place. -/
theorem putUInt_result {width position value : Nat} {buf result : Bytes}
    (h : putUInt width value position buf = .ok result) :
    result = copyInto buf position (bigEndian width value) := by
  unfold putUInt at h
  split at h
  · cases h
  · split at h
    · cases h
    · cases h
      rfl

/-- No more is stored of a text than it has. -/
theorem length_wholeCharacters_le (room : Nat) (chars : List Char) :
    (wholeCharacters room chars).length ≤ (chars.flatMap String.utf8EncodeChar).length := by
  induction chars generalizing room with
  | nil => exact le_refl _
  | cons char chars ih =>
      rw [wholeCharacters, List.flatMap_cons, List.length_append]
      split
      · have hrest := ih (room - (String.utf8EncodeChar char).length)
        rw [List.length_append]
        omega
      · exact Nat.zero_le _

/-- Storing a text puts no more bytes than the text has in UTF-8. -/
theorem putText_result {text : Text} {position : Nat} {buf result : Bytes}
    (h : putText text position buf = .ok result) :
    ∃ bytes, bytes.length ≤ text.toUtf8.length ∧ result = copyInto buf position bytes := by
  unfold putText at h
  split at h
  · cases h
  · cases h
    exact ⟨_, length_wholeCharacters_le _ _, rfl⟩

/-- Writing a buffer leaves the rest blank. -/
theorem keepsBlank_writeBufferInternal (buffer : Bytes) :
    KeepsBlank (Encoder.writeBufferInternal buffer) := by
  refine (keepsBlank_ensureAvailable _).bind fun encoder next hblank h => ?_
  cases h
  exact hblank.store (le_refl _)

/-- Writing an integer leaves the rest blank. -/
theorem keepsBlank_writeInt (width : Nat) (value : Int) :
    KeepsBlank (Encoder.writeInt width value) :=
  (keepsBlank_ensureAvailable _).bind <| keepsBlank_put fun _ _ _ h =>
    ⟨_, (length_intBytes width value).le, putInt_result h⟩

/-- Writing an unsigned integer leaves the rest blank. -/
theorem keepsBlank_writeUInt32 (value : Nat) : KeepsBlank (Encoder.writeUInt32 value) :=
  (keepsBlank_ensureAvailable _).bind <| keepsBlank_put fun _ _ _ h =>
    ⟨_, (length_bigEndian 4 value).le, putUInt_result h⟩

/-- Writing a double leaves the rest blank. -/
theorem keepsBlank_writeDouble (value : BitVec 64) : KeepsBlank (Encoder.writeDouble value) :=
  (keepsBlank_ensureAvailable _).bind <| keepsBlank_put fun _ _ _ h =>
    ⟨_, (length_bigEndian 8 value.toNat).le, putUInt_result h⟩

/-- Writing an `int64` leaves the rest blank. -/
theorem keepsBlank_writeInt64 (value : Int) : KeepsBlank (Encoder.writeInt64 value) := by
  refine (keepsBlank_ensureAvailable _).bind fun encoder next hblank h => ?_
  obtain ⟨half, hhigh, hrest⟩ := bind_eq_ok h
  obtain ⟨buf, hlow, hnext⟩ := bind_eq_ok hrest
  cases hnext
  rw [putInt_result hhigh] at hlow
  rw [putInt_result hlow]
  -- the low half goes behind the high half, which has already been stored
  have hfirst := @Encoder.Blank.store encoder _ 4 hblank
    (length_intBytes 4 (Long.getHighBits value)).le
  exact hfirst.store (length_intBytes 4 (Long.getLowBits value)).le

/-- Storing a text leaves the rest blank. -/
theorem keepsBlank_storeText (text : Text) : KeepsBlank (Encoder.storeText text) :=
  keepsBlank_put fun _ _ _ h => putText_result h

/-- Writing a text leaves the rest blank. -/
theorem keepsBlank_writeText (text : Text) : KeepsBlank (Encoder.writeText text) :=
  (keepsBlank_ensureAvailable _).bind (keepsBlank_storeText text)

end Blank

/-! ## The single writers -/

section Writers

variable {op : Encoder → Except KafkaError Encoder} {bytes : Bytes}

/-- A write that keeps the zeros appends its bytes. -/
theorem Writes.encodes (hwrites : Writes op bytes) (hblank : KeepsBlank op) : Encodes op bytes := by
  intro encoder data h hlimit
  rcases hwrites encoder data h.toHolds (by omega) with ⟨next, hnext, hholds, -⟩ | ⟨hlarge, -, -⟩
  · exact ⟨next, hnext, hholds, hblank encoder next h.blank hnext⟩
  · omega

/-- A buffer is written as it is. -/
theorem encodes_writeBufferInternal (buffer : Bytes) :
    Encodes (Encoder.writeBufferInternal buffer) buffer :=
  (writes_writeBufferInternal buffer).encodes (keepsBlank_writeBufferInternal buffer)

/-- A varint is written in zigzag form. -/
theorem encodes_writeVarInt (value : Int) :
    Encodes (Encoder.writeVarInt value) (varIntBytes value) :=
  encodes_writeBufferInternal _

/-- An unsigned varint is written from the low 32 bits. -/
theorem encodes_writeUVarInt (value : Int) :
    Encodes (Encoder.writeUVarInt value) (uVarIntBytes (BitVec.ofInt 32 value)) :=
  encodes_writeBufferInternal _

/-- An integer that fits is written in its width. -/
theorem encodes_writeInt {width : Nat} {value : Int} (h : FitsInt width value) :
    Encodes (Encoder.writeInt width value) (intBytes width value) :=
  (writes_writeInt h.1 h.2).encodes (keepsBlank_writeInt width value)

/-- A text is written in UTF-8. -/
theorem encodes_writeText (text : Text) : Encodes (Encoder.writeText text) text.toUtf8 :=
  (writes_writeText text).encodes (keepsBlank_writeText text)

/-- Encoders are appended by their buffers, whatever state they are in. -/
theorem encodes_writeEncoderArray (values : List Encoder) :
    Encodes (Encoder.writeEncoderArray values) (values.flatMap Encoder.buffer) := by
  induction values with
  | nil => exact Appends.pure
  | cons value values ih => exact (encodes_writeBufferInternal value.buffer).bind ih

/-- Zeros that are already there need not be copied. -/
theorem copyInto_zeros {target source : Bytes} {start pad : Nat}
    (hblank : ∀ byte ∈ target.drop start, byte = 0)
    (hroom : start + (source.length + pad) ≤ target.length) :
    copyInto target start (source ++ List.replicate pad 0) = copyInto target start source := by
  have hlength : (source ++ List.replicate pad (0 : UInt8)).length = source.length + pad := by
    rw [List.length_append, List.length_replicate]
  have hzeros : (target.drop (start + source.length)).take pad = List.replicate pad 0 := by
    rw [List.eq_replicate_iff, List.length_take, List.length_drop]
    refine ⟨by omega, fun byte hbyte => hblank byte ?_⟩
    have hmem := List.mem_of_mem_take hbyte
    rw [← List.drop_drop] at hmem
    exact List.mem_of_mem_drop hmem
  have hrest : target.drop (start + (source.length + pad)) =
      (target.drop (start + source.length)).drop pad := by
    rw [List.drop_drop, Nat.add_assoc]
  rw [copyInto_of_le (by rw [hlength]; exact hroom), copyInto_of_le (by omega), hlength, ← hzeros,
    hrest]
  simp only [List.append_assoc]
  rw [List.take_append_drop]

/-- A UUID has at most 16 bytes. -/
theorem length_uuidBytes_le (value : Option Text) : (uuidBytes value).length ≤ 16 := by
  cases value with
  | none => exact le_refl _
  | some value => exact List.length_take_le _ _

/-- A UUID takes the place of 16 bytes. -/
theorem length_paddedUuid (value : Option Text) : (paddedUuid value).length = 16 := by
  have hle := length_uuidBytes_le value
  rw [paddedUuid, List.length_append, List.length_replicate]
  omega

/-- A UUID takes sixteen bytes: where fewer are copied, the zeros of the buffer are the rest. -/
theorem encodes_writeUUID (value : Option Text) :
    Encodes (Encoder.writeUUID value) (paddedUuid value) := by
  intro encoder data h hlimit
  rw [length_paddedUuid] at hlimit
  rcases Encoder.ensureAvailable_cases h.toHolds (show data.length + 16 < 2 ^ 31 by omega) with
    ⟨roomy, hroomy, hholds, hroom, -⟩ | ⟨hlarge, -, -⟩
  · have hblank := keepsBlank_ensureAvailable 16 encoder roomy h.blank hroomy
    have hle := length_uuidBytes_le value
    have hput := hholds.put (show data.length + (paddedUuid value).length ≤ roomy.buf.length by
      rw [length_paddedUuid]; exact hroom)
    have hcopy : copyInto roomy.buf roomy.offset (paddedUuid value) =
        copyInto roomy.buf roomy.offset (uuidBytes value) :=
      copyInto_zeros hblank (by rw [hholds.offset]; omega)
    rw [hcopy, length_paddedUuid] at hput
    refine ⟨_, ?_, hput, hblank.store hle⟩
    show (encoder.ensureAvailable 16 >>= _) = _
    rw [hroomy]
    cases value <;> rfl
  · omega

end Writers

/-! ## Writes that throw -/

/-- An integer that does not fit is rejected. -/
theorem rejects_writeInt {width : Nat} {value : Int} (h : ¬ FitsInt width value) :
    Rejects (Encoder.writeInt width value) := by
  rw [FitsInt, not_and_or, not_le, not_lt] at h
  refine Rejects.bind_right fun encoder => ⟨outOfRange, ?_⟩
  rw [putInt, if_pos h, error_bind]

/-- An integer beyond 32 bits is rejected. -/
theorem rejects_writeUInt32 {value : Nat} (h : ¬ value < 2 ^ 32) :
    Rejects (Encoder.writeUInt32 value) := by
  refine Rejects.bind_right fun encoder => ⟨outOfRange, ?_⟩
  rw [putUInt, if_pos (by omega), error_bind]

/-! ## Each write -/

namespace Write

variable {width : Nat} {value : Int} {bytes : Bytes}

/-- What is encoded in a fixed width fits there. -/
theorem fixedWidth_eq_some (h : fixedWidth width value = some bytes) :
    FitsInt width value ∧ bytes = intBytes width value := by
  unfold fixedWidth at h
  split at h
  · next hfits =>
      cases h
      exact ⟨hfits, rfl⟩
  · cases h

/-- What is not encoded in a fixed width does not fit there. -/
theorem fixedWidth_eq_none (h : fixedWidth width value = none) : ¬ FitsInt width value := by
  unfold fixedWidth at h
  split at h
  · cases h
  · assumption

/-- `writeInt` writes the encoding of the width, if there is one. -/
theorem encodes_writeInt_of (h : fixedWidth width value = some bytes) :
    Encodes (Encoder.writeInt width value) bytes := by
  obtain ⟨hfits, rfl⟩ := fixedWidth_eq_some h
  exact encodes_writeInt hfits

/-- `writeInt` throws if the width has no encoding. -/
theorem rejects_writeInt_of (h : fixedWidth width value = none) :
    Rejects (Encoder.writeInt width value) :=
  rejects_writeInt (fixedWidth_eq_none h)

/-! ### Strings and bytes -/

/-- The encoding behind a length is the length and the content. -/
theorem sized_some_eq_some {content : Bytes} (h : sized width (some content) = some bytes) :
    FitsInt width content.length ∧ bytes = intBytes width content.length ++ content := by
  obtain ⟨lead, hlead, rfl⟩ := Option.map_eq_some_iff.mp h
  obtain ⟨hfits, rfl⟩ := fixedWidth_eq_some hlead
  exact ⟨hfits, rfl⟩

/-- Content has no encoding behind a length only if its length has none. -/
theorem sized_some_eq_none {content : Bytes} (h : sized width (some content) = none) :
    fixedWidth width content.length = none :=
  Option.map_eq_none_iff.mp h

/-- A text in the room that was made for it and its length. -/
theorem encodes_lengthAndText {text : Text} (h : FitsInt width text.toUtf8.length) :
    Encodes (fun encoder => encoder.ensureAvailable (width + text.toUtf8.length) >>= fun encoder =>
        encoder.writeInt width text.toUtf8.length >>= Encoder.storeText text)
      (intBytes width text.toUtf8.length ++ text.toUtf8) := by
  have hwrites := writes_lengthAndText (writes_writeInt h.1 h.2)
    (length_intBytes width text.toUtf8.length) text
  exact hwrites.encodes ((keepsBlank_ensureAvailable _).bind
    ((keepsBlank_writeInt _ _).bind (keepsBlank_storeText text)))

/-- A length that does not fit its field is not written, and neither is what it belongs to. -/
theorem rejects_lengthAnd {length room : Nat} {store : Encoder → Except KafkaError Encoder}
    (h : fixedWidth width length = none) :
    Rejects (fun encoder => encoder.ensureAvailable room >>= fun encoder =>
      encoder.writeInt width length >>= store) :=
  Rejects.bind_right (rejects_writeInt_of h).bind_left

/-- A string is written behind a length of two bytes. -/
theorem encodes_writeString {text : Option Text}
    (h : sized 2 (text.map Text.toUtf8) = some bytes) :
    Encodes (Encoder.writeString text) bytes := by
  cases text with
  | none => exact encodes_writeInt_of h
  | some text =>
      obtain ⟨hfits, rfl⟩ := sized_some_eq_some h
      exact encodes_lengthAndText hfits

/-- A string whose length does not fit is rejected. -/
theorem rejects_writeString {text : Option Text} (h : sized 2 (text.map Text.toUtf8) = none) :
    Rejects (Encoder.writeString text) := by
  cases text with
  | none => exact rejects_writeInt_of h
  | some text => exact rejects_lengthAnd (sized_some_eq_none h)

/-- Bytes are written behind a length of four bytes. -/
theorem encodes_writeBytes {content : Bytes} (h : FitsInt 4 content.length) :
    Encodes (Encoder.writeBytes content) (intBytes 4 content.length ++ content) := by
  have hupper := h.2
  exact (writes_writeBytes (show content.length < 2 ^ 31 by omega)).encodes
    ((keepsBlank_ensureAvailable _).bind
      ((keepsBlank_writeInt _ _).bind (keepsBlank_writeBufferInternal content)))

/-- Nullable bytes are written behind a length of four bytes, which is -1 for null. -/
theorem encodes_writeNullableBytes {payload : Option Payload}
    (h : sized 4 (payload.map Payload.bytes) = some bytes) :
    Encodes (Encoder.writeNullableBytes payload) bytes := by
  cases payload with
  | none => exact encodes_writeInt_of h
  | some payload =>
      obtain ⟨hfits, rfl⟩ := sized_some_eq_some h
      cases payload with
      | buffer content => exact encodes_writeBytes hfits
      | string text => exact encodes_lengthAndText hfits

/-- Nullable bytes whose length does not fit are rejected. -/
theorem rejects_writeNullableBytes {payload : Option Payload}
    (h : sized 4 (payload.map Payload.bytes) = none) :
    Rejects (Encoder.writeNullableBytes payload) := by
  cases payload with
  | none => exact rejects_writeInt_of h
  | some payload =>
      have hlength := sized_some_eq_none h
      cases payload with
      | buffer content => exact rejects_lengthAnd hlength
      | string text => exact rejects_lengthAnd hlength

/-! ### Values behind their length as a variable length integer -/

/-- Nullable bytes are written behind a varint. -/
theorem encodes_lengthPrefixed (payload : Option Payload) :
    Encodes (Encoder.writeVarIntBytes payload) (lengthPrefixed (payload.map Payload.bytes)) := by
  match payload with
  | none => exact encodes_writeVarInt (-1)
  | some (.buffer content) =>
      exact (encodes_writeVarInt _).bind (encodes_writeBufferInternal content)
  | some (.string text) => exact (encodes_writeVarInt _).bind (encodes_writeText text)

/-- A nullable string is written behind a varint. -/
theorem encodes_writeVarIntString (text : Option Text) :
    Encodes (Encoder.writeNullableVarIntString text) (lengthPrefixed (text.map Text.toUtf8)) := by
  cases text with
  | none => exact encodes_writeVarInt (-1)
  | some text => exact (encodes_writeVarInt _).bind (encodes_writeText text)

/-- Nullable bytes are written in the compact form. -/
theorem encodes_compactBytes (payload : Option Payload) :
    Encodes (Encoder.writeUVarIntBytes payload) (compactBytes (payload.map Payload.bytes)) := by
  match payload with
  | none =>
      -- the zero that null is written as is the same in both variable length notations
      exact encodes_writeVarInt 0
  | some (.buffer content) =>
      exact (encodes_writeUVarInt _).bind (encodes_writeBufferInternal content)
  | some (.string text) => exact (encodes_writeUVarInt _).bind (encodes_writeText text)

/-- A nullable string is written in the compact form. -/
theorem encodes_writeUVarIntString (text : Option Text) :
    Encodes (Encoder.writeUVarIntString text) (compactBytes (text.map Text.toUtf8)) := by
  cases text with
  | none => exact encodes_writeUVarInt 0
  | some text => exact (encodes_writeUVarInt _).bind (encodes_writeText text)

/-! ### Arrays -/

/-- `array.forEach` is the fold over the elements. -/
theorem writeEach_eq_foldlM {α : Type} (write : α → Encoder → Except KafkaError Encoder)
    (values : List α) :
    Encoder.writeEach write values = values.foldlM fun encoder value => write value encoder := by
  induction values with
  | nil => rfl
  | cons value values ih =>
      funext encoder
      rw [Encoder.writeEach, List.foldlM_cons, ih]

/-- An element of an array is written by its type. -/
theorem encodes_writeElement {element : Encoder.Element} (h : elementEncoding element = some bytes) :
    Encodes (Encoder.writeElement element) bytes := by
  cases element with
  | number value => exact encodes_writeInt_of h
  | string value => exact encodes_writeString h
  | object value =>
      cases h
      exact encodes_writeBufferInternal value.buffer

/-- An element without an encoding is rejected. -/
theorem rejects_writeElement {element : Encoder.Element} (h : elementEncoding element = none) :
    Rejects (Encoder.writeElement element) := by
  cases element with
  | number value => exact rejects_writeInt_of h
  | string value => exact rejects_writeString h
  | object value => cases h

/-- An array is written behind its count. -/
theorem encodes_writeArrayOf {length : Option Int} {elements : List Encoder.Element}
    (h : arrayEncoding (length.getD elements.length) elements = some bytes) :
    Encodes (Encoder.writeArrayOf elements length) bytes := by
  obtain ⟨lead, hlead, hrest⟩ := Option.bind_eq_some_iff.mp h
  obtain ⟨content, hcontent, rfl⟩ := Option.map_eq_some_iff.mp hrest
  have helements := @appends_foldlM _ _ _ _ Encoder.Represents (2 ^ 30) _ _ _ Encoder.writeElement
    (fun _ _ => encodes_writeElement) hcontent
  rw [← writeEach_eq_foldlM] at helements
  exact (encodes_writeInt_of hlead).bind helements

/-- An array without an encoding is rejected. -/
theorem rejects_writeArrayOf {length : Option Int} {elements : List Encoder.Element}
    (h : arrayEncoding (length.getD elements.length) elements = none) :
    Rejects (Encoder.writeArrayOf elements length) := by
  cases hlead : fixedWidth 4 (length.getD elements.length) with
  | none => exact (rejects_writeInt_of hlead).bind_left
  | some lead =>
      rw [arrayEncoding, hlead, Option.bind_some, Option.map_eq_none_iff] at h
      have helements := rejects_foldlM (fun _ => rejects_writeElement) h
      rw [← writeEach_eq_foldlM] at helements
      exact helements.bind_right

/-! ### Any write -/

/-- A write whose values fit appends its bytes. -/
theorem encodes_run {write : Write} (h : write.encoding = some bytes) : Encodes write.run bytes := by
  cases write with
  | int8 value | int16 value | int32 value => exact encodes_writeInt_of h
  | uInt32 value =>
      by_cases hrange : value < 2 ^ 32
      · rw [encoding, if_pos hrange] at h
        cases h
        exact (writes_writeUInt32 hrange).encodes (keepsBlank_writeUInt32 value)
      · rw [encoding, if_neg hrange] at h
        cases h
  | int64 value =>
      cases h
      exact (writes_writeInt64 value).encodes (keepsBlank_writeInt64 value)
  | double value =>
      cases h
      exact (writes_writeDouble value).encodes (keepsBlank_writeDouble value)
  | boolean value =>
      cases h
      cases value
      · exact @encodes_writeInt 1 0 (by decide)
      · exact @encodes_writeInt 1 1 (by decide)
  | string value => exact encodes_writeString h
  | varIntString value =>
      cases h
      exact encodes_writeVarIntString value
  | uVarIntString value =>
      cases h
      exact encodes_writeUVarIntString value
  | bytes value => exact encodes_writeNullableBytes h
  | varIntBytes value =>
      cases h
      exact encodes_lengthPrefixed value
  | uVarIntBytes value =>
      cases h
      exact encodes_compactBytes value
  | encoder value =>
      cases h
      exact encodes_writeBufferInternal value.buffer
  | encoderArray value =>
      cases h
      exact encodes_writeEncoderArray value
  | buffer value =>
      cases h
      exact encodes_writeBufferInternal _
  | nullableArray elements => exact encodes_writeArrayOf h
  | array elements length => exact encodes_writeArrayOf h
  | varIntArray encoders =>
      cases h
      exact (encodes_writeVarInt _).bind (encodes_writeEncoderArray encoders)
  | uVarIntArray encoders =>
      cases encoders with
      | none =>
          cases h
          exact encodes_writeUVarInt 0
      | some encoders =>
          cases h
          exact (encodes_writeUVarInt _).bind (encodes_writeEncoderArray encoders)
  | varInt value =>
      cases h
      exact encodes_writeVarInt value
  | uVarInt value =>
      cases h
      exact encodes_writeUVarInt value
  | varLong value =>
      cases h
      exact encodes_writeBufferInternal (varLongBytes value)
  | uuid value =>
      cases h
      exact encodes_writeUUID value

/-- A write of a value that does not fit throws. -/
theorem rejects_run {write : Write} (h : write.encoding = none) : Rejects write.run := by
  cases write with
  | int8 value | int16 value | int32 value => exact rejects_writeInt_of h
  | uInt32 value =>
      by_cases hrange : value < 2 ^ 32
      · rw [encoding, if_pos hrange] at h
        cases h
      · exact rejects_writeUInt32 hrange
  | string value => exact rejects_writeString h
  | bytes value => exact rejects_writeNullableBytes h
  | nullableArray elements => exact rejects_writeArrayOf h
  | array elements length => exact rejects_writeArrayOf h
  | uVarIntArray encoders => cases encoders <;> cases h
  | _ => cases h

end Write

/-! ## Initial sizes -/

section InitialSize

variable {initialSize : Nat}

/-- Only the low 32 bits of a size count. -/
theorem nextPowerOfTwo_mod (value : Nat) :
    nextPowerOfTwo (value % 2 ^ 32) = nextPowerOfTwo value := by
  simp only [nextPowerOfTwo, clz32, Nat.mod_mod]

/-- Apart from the shift to the sign bit, the next power of two is not negative. -/
theorem nextPowerOfTwo_nonneg
    (h : initialSize % 2 ^ 32 < 2 ^ 30 ∨ 2 ^ 31 ≤ initialSize % 2 ^ 32) :
    0 ≤ nextPowerOfTwo initialSize := by
  rw [← nextPowerOfTwo_mod]
  have hwidth : initialSize % 2 ^ 32 < 2 ^ 32 := Nat.mod_lt _ (by decide)
  rcases h with hsmall | hlarge
  · by_cases hzero : initialSize % 2 ^ 32 = 0
    · rw [hzero]
      decide
    · obtain ⟨size, hsize, -, -⟩ := Encoder.nextPowerOfTwo_of_lt (by omega) hsmall
      omega
  · -- without leading zeros the shift is by 32 bits, which is none
    have hlog : (initialSize % 2 ^ 32).log2 = 31 := by
      have hlt : (initialSize % 2 ^ 32).log2 < 32 := (Nat.log2_lt (by omega)).mpr hwidth
      have hle : 31 ≤ (initialSize % 2 ^ 32).log2 := (Nat.le_log2 (by omega)).mpr hlarge
      omega
    have hclz : clz32 (initialSize % 2 ^ 32) = 0 := by
      rw [clz32, Nat.mod_mod, if_neg (by omega), hlog]
    rw [nextPowerOfTwo, hclz]
    decide

/-- A new encoder holds nothing yet. -/
theorem ofSize_represents
    (h : initialSize % 2 ^ 32 < 2 ^ 30 ∨ 2 ^ 31 ≤ initialSize % 2 ^ 32) :
    ∃ encoder, Encoder.ofSize initialSize = .ok encoder ∧ encoder.Represents [] := by
  have hnonneg := nextPowerOfTwo_nonneg h
  have hle := nextPowerOfTwo_le initialSize
  refine ⟨⟨List.replicate (nextPowerOfTwo initialSize).toNat 0, 0⟩, ?_, ⟨rfl, rfl, ?_⟩, ?_⟩
  · rw [Encoder.ofSize, alloc, if_neg (by omega)]
    rfl
  · rw [List.length_replicate]
    omega
  · exact fun byte hbyte => List.eq_of_mem_replicate hbyte

/-- The constructor throws where the shift reaches the sign bit. -/
theorem ofSize_error (hlower : 2 ^ 30 ≤ initialSize % 2 ^ 32)
    (hupper : initialSize % 2 ^ 32 < 2 ^ 31) :
    Encoder.ofSize initialSize = .error outOfRange := by
  have hneg := Encoder.nextPowerOfTwo_neg hlower hupper
  rw [nextPowerOfTwo_mod] at hneg
  rw [Encoder.ofSize, alloc, if_pos hneg]
  rfl

-- the default size is that of `new Encoder()`
example : Encoder.ofSize 511 = .ok Encoder.new := rfl

end InitialSize

/-! ## Sequences of writes -/

namespace Write

variable {initialSize : Nat} {writes : List Write} {content : Bytes}

/-- Writes whose values fit leave their bytes in the buffer. -/
theorem encode_represents
    (hsize : initialSize % 2 ^ 32 < 2 ^ 30 ∨ 2 ^ 31 ≤ initialSize % 2 ^ 32)
    (hcontent : contents encoding writes = some content) (hlength : content.length < 2 ^ 30) :
    ∃ encoder, encode initialSize writes = .ok encoder ∧ encoder.Represents content := by
  obtain ⟨start, hstart, hempty⟩ := ofSize_represents hsize
  have hwrites : Encodes (writes.foldlM fun encoder write => write.run encoder) content :=
    appends_foldlM (fun _ _ => encodes_run) hcontent
  obtain ⟨encoder, hencoder, hholds⟩ :=
    hwrites start [] hempty (by rw [List.length_nil]; omega)
  refine ⟨encoder, ?_, hholds⟩
  rw [encode, hstart]
  exact hencoder

/-- Whatever the initial size, a write of a value that does not fit throws. -/
theorem encode_error (hcontent : contents encoding writes = none) :
    ∃ error, encode initialSize writes = .error error := by
  have hwrites : Rejects (writes.foldlM fun encoder write => write.run encoder) :=
    rejects_foldlM (fun _ => rejects_run) hcontent
  unfold encode
  cases Encoder.ofSize initialSize with
  | error error => exact ⟨error, rfl⟩
  | ok start => exact hwrites start

/-- Writes of less than `2 ^ 30` bytes are kept if the initial size is below that or counts as
negative. -/
theorem kept_of_size (hsize : initialSize % 2 ^ 32 < 2 ^ 30 ∨ 2 ^ 31 ≤ initialSize % 2 ^ 32)
    (hweight : weight encoding writes < 2 ^ 30) : Kept initialSize writes := by
  unfold Kept
  cases hcontent : contents encoding writes with
  | none => exact encode_error hcontent
  | some content =>
      have hlength := length_contents hcontent
      obtain ⟨encoder, hencoder, hholds⟩ := encode_represents hsize hcontent (by omega)
      have hle := hholds.length_le
      exact ⟨encoder, hencoder, by rw [hholds.offset]; exact hle, hholds.buffer_eq⟩

/-- No encoder is there for an initial size at which the shift reaches the sign bit. -/
theorem not_kept_nil (hlower : 2 ^ 30 ≤ initialSize % 2 ^ 32)
    (hupper : initialSize % 2 ^ 32 < 2 ^ 31) : ¬ Kept initialSize [] := by
  rintro ⟨encoder, hencoder, -⟩
  rw [encode, ofSize_error hlower hupper] at hencoder
  cases hencoder

/-- The encoders of an initial size keep every sequence of writes below `2 ^ 30` bytes, unless the
shift by which the constructor rounds up reaches the sign bit. -/
theorem keepsWrites_iff (initialSize : Nat) :
    KeepsWrites initialSize ↔
      initialSize % 2 ^ 32 < 2 ^ 30 ∨ 2 ^ 31 ≤ initialSize % 2 ^ 32 := by
  constructor
  · intro h
    have hnil : Kept initialSize [] := h [] (by decide) [] (List.prefix_refl [])
    by_contra hsize
    rw [not_or, not_lt, not_le] at hsize
    exact not_kept_nil hsize.1 hsize.2 hnil
  · intro hsize writes hweight done hdone
    have hle := @weight_mono _ _ encoding _ _ hdone
    exact kept_of_size hsize (by omega)

example : (encode 0 [.string none, .uuid (some [49, 50, 51]), .buffer [7, 8]]).toOption.map
    Encoder.buffer = some ([255, 255, 18] ++ List.replicate 15 0 ++ [7, 8]) := by decide

/-- From an initial size of `2 ^ 30` on there is no encoder to write to. -/
theorem not_keepsWrites_two_pow : ¬ KeepsWrites (2 ^ 30) := by
  intro h
  exact not_kept_nil (by decide) (by decide) (h [] (by decide) [] (List.prefix_refl []))

end Write

end KafkaJs.Protocol
