import KafkaJs.Protocol.PrimitiveReaders

/-!
# Sequences of primitives

A `Kind` says which writer writes a value and which reader reads it; arrays hold values of one
kind, and a pair is one value behind another. An item is a kind with a value, and a list of items
stands for the writes of one encoder.

What a reader returns is `Kind.seen`, a function of the value and of the bytes that follow it. The
following bytes only matter to `readUVarIntBytes`, which takes one of them along. Everywhere else
`Kind.seen` is `Kind.expected`, the value that was written, and this is what `undone_iff` says of
whole sequences.
-/

namespace KafkaJs.Protocol

open KafkaJs.Data

/-! ## Kinds of values -/

/-- A writer and its reader. Arrays of numbers and of strings hold them as they are, the other
arrays hold an encoder for each element; `nullable` is the writer that writes an empty array as
null. -/
inductive Kind where
  | int8
  | int16
  | int32
  | int64
  | boolean
  | varInt
  | uVarInt
  | varLong
  | string
  | varIntString
  | uVarIntString
  | bytes
  | varIntBytes
  | uVarIntBytes
  | uuid
  | numbers (nullable : Bool)
  | strings (nullable : Bool)
  | array (nullable : Bool) (element : Kind)
  | varIntArray (element : Kind)
  | uVarIntArray (element : Kind)
  | pair (first second : Kind)

namespace Kind

/-- The values that the writer takes. -/
@[reducible] def Value : Kind → Type
  | int8 | int16 | int32 | int64 | varInt | uVarInt | varLong => Int
  | boolean => Bool
  | string | varIntString | uVarIntString | uuid => Option Text
  | bytes | varIntBytes | uVarIntBytes => Option Payload
  | numbers _ => List Int
  | strings _ => List (Option Text)
  | array _ element | varIntArray element => List element.Value
  | uVarIntArray element => Option (List element.Value)
  | pair first second => first.Value × second.Value

/-- The values that the reader returns. -/
@[reducible] def Read : Kind → Type
  | int8 | int16 | int32 | int64 | varInt | varLong => Int
  | uVarInt => Nat
  | boolean => Bool
  | string | varIntString | uVarIntString | uuid => Option Text
  | bytes | varIntBytes | uVarIntBytes => Option Bytes
  | numbers _ => List Int
  | strings _ => List (Option Text)
  | array _ element | varIntArray element => List element.Read
  | uVarIntArray element => Option (List element.Read)
  | pair first second => first.Read × second.Read

/-- `writeArray` or `writeNullableArray`. -/
def writeArrayAs (nullable : Bool) (array : List Encoder.Element) :
    Encoder → Except KafkaError Encoder :=
  if nullable then Encoder.writeNullableArray array else Encoder.writeArrayOf array none

/-- Write a value. -/
def write : (kind : Kind) → kind.Value → Encoder → Except KafkaError Encoder
  | int8, value => Encoder.writeInt8 value
  | int16, value => Encoder.writeInt16 value
  | int32, value => Encoder.writeInt32 value
  | int64, value => Encoder.writeInt64 value
  | boolean, value => Encoder.writeBoolean value
  | varInt, value => Encoder.writeVarInt value
  | uVarInt, value => Encoder.writeUVarInt value
  | varLong, value => Encoder.writeVarLong value
  | string, value => Encoder.writeString value
  | varIntString, value => Encoder.writeNullableVarIntString value
  | uVarIntString, value => Encoder.writeUVarIntString value
  | bytes, value => Encoder.writeNullableBytes value
  | varIntBytes, value => Encoder.writeVarIntBytes value
  | uVarIntBytes, value => Encoder.writeUVarIntBytes value
  | uuid, value => Encoder.writeUUID value
  | numbers nullable, values => writeArrayAs nullable (values.map .number)
  | strings nullable, values => writeArrayAs nullable (values.map .string)
  | array nullable element, values => fun encoder =>
      values.mapM (fun value => element.write value Encoder.new) >>= fun encoders =>
        writeArrayAs nullable (encoders.map .object) encoder
  | varIntArray element, values => fun encoder =>
      values.mapM (fun value => element.write value Encoder.new) >>= fun encoders =>
        encoder.writeVarIntArray encoders
  | uVarIntArray _, none => Encoder.writeUVarIntArray none
  | uVarIntArray element, some values => fun encoder =>
      values.mapM (fun value => element.write value Encoder.new) >>= fun encoders =>
        encoder.writeUVarIntArray (some encoders)
  | pair first second, (head, tail) => fun encoder =>
      first.write head encoder >>= second.write tail

/-- Read a value. -/
def read : (kind : Kind) → Reader kind.Read
  | int8 => Decoder.readInt8
  | int16 => Decoder.readInt16
  | int32 => Decoder.readInt32
  | int64 => Decoder.readInt64
  | boolean => Decoder.readBoolean
  | varInt => Decoder.readVarInt
  | uVarInt => Decoder.readUVarInt
  | varLong => Decoder.readVarLong
  | string => Decoder.readString
  | varIntString => Decoder.readVarIntString
  | uVarIntString => Decoder.readUVarIntString
  | bytes => Decoder.readBytes
  | varIntBytes => Decoder.readVarIntBytes
  | uVarIntBytes => Decoder.readUVarIntBytes
  | uuid => Decoder.readUUID
  | numbers _ => Decoder.readArray Decoder.readInt32
  | strings _ => Decoder.readArray Decoder.readString
  | array _ element => Decoder.readArray element.read
  | varIntArray element => Decoder.readVarIntArray element.read
  | uVarIntArray element => Decoder.readUVarIntArray element.read
  | pair first second => do
      let head ← first.read
      let tail ← second.read
      pure (head, tail)

/-- The values that the writer accepts: the range of the integers, the 16-bit length of a string
and the form of a UUID. -/
def InRange : (kind : Kind) → kind.Value → Prop
  | int8, value => FitsInt 1 value
  | int16, value => FitsInt 2 value
  | int32, value => FitsInt 4 value
  | int64, value => FitsInt 8 value
  | varInt, value => FitsInt 4 value
  | uVarInt, value => 0 ≤ value ∧ value < 2 ^ 32
  | varLong, value => FitsInt 8 value
  | string, value => ∀ text ∈ value, text.toUtf8.length < 2 ^ 15
  | uuid, value => ∀ text ∈ value, IsUuid text
  | numbers _, values => ∀ value ∈ values, FitsInt 4 value
  | strings _, values => ∀ value ∈ values, ∀ text ∈ value, text.toUtf8.length < 2 ^ 15
  | array _ element, values => ∀ value ∈ values, element.InRange value
  | varIntArray element, values => ∀ value ∈ values, element.InRange value
  | uVarIntArray element, values => ∀ array ∈ values, ∀ value ∈ array, element.InRange value
  | pair first second, (head, tail) => first.InRange head ∧ second.InRange tail
  | boolean, _ | varIntString, _ | uVarIntString, _ | bytes, _ | varIntBytes, _ | uVarIntBytes, _ =>
      True

/-- The value that was written, in the form in which readers return it: text is well-formed, a
string written as bytes is its UTF-8 bytes, a UUID is in lower case and the nil UUID is null. -/
def expected : (kind : Kind) → kind.Value → kind.Read
  | int8, value | int16, value | int32, value | int64, value | varInt, value | varLong, value
  | boolean, value | numbers _, value => value
  | uVarInt, value => value.toNat
  | string, value | varIntString, value | uVarIntString, value => value.map Text.toWellFormed
  | bytes, value | varIntBytes, value | uVarIntBytes, value => value.map Payload.bytes
  | uuid, value => value.bind uuidValue
  | strings _, values => values.map (Option.map Text.toWellFormed)
  | array _ element, values | varIntArray element, values => values.map element.expected
  | uVarIntArray element, values => values.map (List.map element.expected)
  | pair first second, (head, tail) => (first.expected head, second.expected tail)

/-- No compact bytes are written, but for null. -/
def NoCompactBytes : (kind : Kind) → kind.Value → Prop
  | uVarIntBytes, value => value = none
  | array _ element, values => ∀ value ∈ values, element.NoCompactBytes value
  | varIntArray element, values => ∀ value ∈ values, element.NoCompactBytes value
  | uVarIntArray element, values => ∀ array ∈ values, ∀ value ∈ array, element.NoCompactBytes value
  | pair first second, (head, tail) => first.NoCompactBytes head ∧ second.NoCompactBytes tail
  | int8, _ | int16, _ | int32, _ | int64, _ | boolean, _ | varInt, _ | uVarInt, _ | varLong, _
  | string, _ | varIntString, _ | uVarIntString, _ | bytes, _ | varIntBytes, _ | uuid, _
  | numbers _, _ | strings _, _ => True

/-! ### What is written and what is read -/

/-- The length that an array is written with. -/
def arrayLength (nullable : Bool) (length : Nat) : Int :=
  if nullable ∧ length = 0 then -1 else length

/-- The bytes of a value. -/
def encoding : (kind : Kind) → kind.Value → Bytes
  | int8, value => intBytes 1 value
  | int16, value => intBytes 2 value
  | int32, value => intBytes 4 value
  | int64, value => int64Bytes value
  | boolean, value => intBytes 1 (if value then 1 else 0)
  | varInt, value => Protocol.varIntBytes value
  | uVarInt, value => Protocol.uVarIntBytes (BitVec.ofInt 32 value)
  | varLong, value => varLongBytes value
  | string, value => stringBytes value
  | varIntString, value => lengthPrefixed (value.map Text.toUtf8)
  | uVarIntString, value => compactBytes (value.map Text.toUtf8)
  | bytes, value => sizedBytes (value.map Payload.bytes)
  | varIntBytes, value => lengthPrefixed (value.map Payload.bytes)
  | uVarIntBytes, value => compactBytes (value.map Payload.bytes)
  | uuid, value => uuidBytes value
  | numbers nullable, values =>
      intBytes 4 (arrayLength nullable values.length) ++ values.flatMap (intBytes 4)
  | strings nullable, values =>
      intBytes 4 (arrayLength nullable values.length) ++ values.flatMap stringBytes
  | array nullable element, values =>
      intBytes 4 (arrayLength nullable values.length) ++ values.flatMap element.encoding
  | varIntArray element, values => Protocol.varIntBytes values.length ++ values.flatMap element.encoding
  | uVarIntArray _, none => Protocol.uVarIntBytes 0#32
  | uVarIntArray element, some values =>
      Protocol.uVarIntBytes (BitVec.ofInt 32 (values.length + 1)) ++ values.flatMap element.encoding
  | pair first second, (head, tail) => first.encoding head ++ second.encoding tail

/-- The value that the reader returns where `after` follows the bytes of a value. -/
def seen : (kind : Kind) → kind.Value → Bytes → kind.Read
  | uVarIntBytes, value, after => withNext (value.map Payload.bytes) after
  | array _ element, values, after => seenEach element.seen element.encoding values after
  | varIntArray element, values, after => seenEach element.seen element.encoding values after
  | uVarIntArray element, values, after =>
      values.map fun array => seenEach element.seen element.encoding array after
  | pair first second, (head, tail), after =>
      (first.seen head (second.encoding tail ++ after), second.seen tail after)
  | kind, value, _ => kind.expected value

/-! ### Lengths -/

/-- Every value takes at least one byte. -/
theorem length_encoding_pos (kind : Kind) (value : kind.Value) (h : kind.InRange value) :
    0 < (kind.encoding value).length := by
  induction kind with
  | int8 | int16 | int32 | boolean => simp only [encoding, length_intBytes]; omega
  | int64 => simp [encoding]
  | varInt => exact List.length_pos_iff.mpr (varIntBytes_ne_nil value)
  | uVarInt => exact List.length_pos_iff.mpr (uVarIntBytes_ne_nil _)
  | varLong => exact List.length_pos_iff.mpr (varLongBytes_ne_nil value)
  | string => cases value <;> simp [encoding, stringBytes]
  | varIntString =>
      cases value <;> simp [encoding, lengthPrefixed, List.length_pos_iff, varIntBytes_ne_nil]
  | uVarIntString =>
      cases value <;> simp [encoding, compactBytes, List.length_pos_iff, uVarIntBytes_ne_nil]
  | bytes => cases value <;> simp [encoding, sizedBytes]
  | varIntBytes =>
      cases value <;> simp [encoding, lengthPrefixed, List.length_pos_iff, varIntBytes_ne_nil]
  | uVarIntBytes =>
      cases value <;> simp [encoding, compactBytes, List.length_pos_iff, uVarIntBytes_ne_nil]
  | uuid =>
      show 0 < (uuidBytes value).length
      rw [length_uuidBytes h]
      decide
  | numbers | strings | array => simp only [encoding, List.length_append, length_intBytes]; omega
  | varIntArray =>
      have hlead := List.length_pos_iff.mpr (varIntBytes_ne_nil (List.length value))
      simp only [encoding, List.length_append]
      omega
  | uVarIntArray =>
      cases value <;> simp [encoding, List.length_pos_iff, uVarIntBytes_ne_nil]
  | pair first second ihfirst =>
      have hfirst := ihfirst value.1 h.1
      simp only [encoding, List.length_append]
      omega

/-! ### What is written -/

/-- Elements wrapped before they are written are written unwrapped. -/
theorem writeEach_map {α β : Type} {write : β → Encoder → Except KafkaError Encoder} (f : α → β)
    (values : List α) :
    Encoder.writeEach write (values.map f) = Encoder.writeEach (fun value => write (f value)) values := by
  induction values with
  | nil => rfl
  | cons value values ih =>
      funext encoder
      rw [List.map_cons, Encoder.writeEach, Encoder.writeEach, ih]

/-- Writing encoders one by one is `writeEncoderArray`. -/
theorem writeEach_object (encoders : List Encoder) :
    Encoder.writeEach Encoder.writeElement (encoders.map .object) =
      Encoder.writeEncoderArray encoders := by
  induction encoders with
  | nil => rfl
  | cons value encoders ih =>
      funext encoder
      rw [List.map_cons, Encoder.writeEach, Encoder.writeEncoderArray, ih]
      rfl

/-- An array, given the write of its elements. -/
theorem writes_writeArrayAs {nullable : Bool} {array : List Encoder.Element} {bytes : Bytes}
    (hlength : array.length < 2 ^ 31) (heach : Writes (Encoder.writeEach Encoder.writeElement array) bytes) :
    Writes (writeArrayAs nullable array)
      (intBytes 4 (arrayLength nullable array.length) ++ bytes) := by
  have hlead : FitsInt 4 (arrayLength nullable array.length) := by
    rw [arrayLength, FitsInt]
    split <;> omega
  have hop : writeArrayAs nullable array = fun encoder =>
      encoder.writeInt32 (arrayLength nullable array.length) >>=
        Encoder.writeEach Encoder.writeElement array := by
    funext encoder
    cases nullable
    · rfl
    · rw [writeArrayAs, if_pos rfl, Encoder.writeNullableArray, Encoder.writeArrayOf, arrayLength]
      by_cases hempty : array.length = 0 <;> simp [hempty]
  rw [hop]
  exact (writes_writeInt hlead.1 hlead.2).bind heach

/-- A compact array is one more than its number of elements, followed by them. -/
theorem writes_writeUVarIntArray {encoders : List Encoder} {contents : List Bytes}
    (h : HoldAll encoders contents) :
    Writes (Encoder.writeUVarIntArray (some encoders))
      (Protocol.uVarIntBytes (BitVec.ofInt 32 (contents.length + 1)) ++ contents.flatten) := by
  rw [← h.length_eq]
  exact (writes_writeUVarInt _).bind (writes_writeEncoderArray h)

/-- The elements of an array, each built in an encoder of its own. -/
theorem builds_element {element : Kind} {values : List element.Value}
    (hrange : ∀ value ∈ values, element.InRange value)
    (hsize : (values.flatMap element.encoding).length < 2 ^ 31)
    (ih : ∀ value, element.InRange value → (element.encoding value).length < 2 ^ 31 →
      Writes (element.write value) (element.encoding value)) :
    ∀ value ∈ values, Builds (element.write value Encoder.new) (element.encoding value) := by
  intro value hmem
  have hle := @length_le_flatMap_of_mem _ _ element.encoding _ hmem
  exact (ih value (hrange value hmem) (by omega)).builds

/-- A value in range is written as its encoding. -/
theorem writes_write (kind : Kind) (value : kind.Value) (hrange : kind.InRange value)
    (hsize : (kind.encoding value).length < 2 ^ 31) :
    Writes (kind.write value) (kind.encoding value) := by
  induction kind with
  | int8 | int16 | int32 => exact writes_writeInt hrange.1 hrange.2
  | int64 => exact writes_writeInt64 value
  | boolean => exact writes_writeBoolean value
  | varInt => exact writes_writeVarInt value
  | uVarInt => exact writes_writeUVarInt value
  | varLong => exact writes_writeVarLong value
  | string => exact writes_writeString hrange
  | varIntString => exact writes_writeNullableVarIntString value
  | uVarIntString => exact writes_writeUVarIntString value
  | bytes =>
      refine writes_writeNullableBytes fun payload hpayload => ?_
      rw [Option.mem_def.mp hpayload] at hsize
      simp only [encoding, sizedBytes, Option.map_some, List.length_append] at hsize
      omega
  | varIntBytes => exact writes_writeVarIntBytes value
  | uVarIntBytes => exact writes_writeUVarIntBytes value
  | uuid => exact writes_writeUUID hrange
  | numbers nullable =>
      have hcount := @length_le_flatMap _ value (intBytes 4) fun _ _ => by simp
      have heach : Writes (Encoder.writeEach Encoder.writeElement (value.map .number))
          (value.flatMap (intBytes 4)) := by
        rw [writeEach_map]
        exact writes_writeEach fun number hmem =>
          writes_writeInt (hrange number hmem).1 (hrange number hmem).2
      have hwrites := @writes_writeArrayAs nullable _ _
        (by simp only [encoding, List.length_append, List.length_map] at hsize ⊢; omega) heach
      rwa [List.length_map] at hwrites
  | strings nullable =>
      have hcount := @length_le_flatMap _ value stringBytes fun text hmem =>
        length_encoding_pos .string text (hrange text hmem)
      have heach : Writes (Encoder.writeEach Encoder.writeElement (value.map .string))
          (value.flatMap stringBytes) := by
        rw [writeEach_map]
        exact writes_writeEach fun text hmem => writes_writeString (hrange text hmem)
      have hwrites := @writes_writeArrayAs nullable _ _
        (by simp only [encoding, List.length_append, List.length_map] at hsize ⊢; omega) heach
      rwa [List.length_map] at hwrites
  | array nullable element ih =>
      simp only [encoding, List.length_append] at hsize
      have hcount := @length_le_flatMap _ value element.encoding fun item hmem =>
        length_encoding_pos element item (hrange item hmem)
      rw [encoding, List.flatMap_def]
      refine writes_built (List.ne_nil_of_length_pos (by rw [length_intBytes]; decide))
        (builds_element hrange (by omega) ih) fun encoders hall => ?_
      have hlength := hall.length_eq
      rw [List.length_map] at hlength
      have hwrites := @writes_writeArrayAs nullable (encoders.map .object) _
        (by rw [List.length_map]; omega)
        (by rw [writeEach_object]; exact writes_writeEncoderArray hall)
      rwa [List.length_map, hlength] at hwrites
  | varIntArray element ih =>
      simp only [encoding, List.length_append] at hsize
      rw [encoding, List.flatMap_def]
      refine writes_built (varIntBytes_ne_nil _) (builds_element hrange (by omega) ih)
        fun encoders hall => ?_
      have hwrites := writes_writeVarIntArray hall
      rwa [List.length_map] at hwrites
  | uVarIntArray element ih =>
      cases value with
      | none => exact writes_writeUVarInt 0
      | some values =>
          simp only [encoding, List.length_append] at hsize
          rw [encoding, List.flatMap_def]
          refine writes_built (uVarIntBytes_ne_nil _)
            (builds_element (hrange values rfl) (by omega) ih) fun encoders hall => ?_
          have hwrites := writes_writeUVarIntArray hall
          rwa [List.length_map] at hwrites
  | pair first second ihfirst ihsecond =>
      simp only [encoding, List.length_append] at hsize
      exact (ihfirst value.1 hrange.1 (by omega)).bind (ihsecond value.2 hrange.2 (by omega))

/-! ### What is read -/

/-- An array reads back element by element; the length minus one is that of an empty array. -/
theorem readsAt_readArray {α β : Type} {reader : Reader β} {items : List α} {bytesOf : α → Bytes}
    {seen : α → Bytes → β} {after : Bytes} (nullable : Bool) (hlength : items.length < 2 ^ 31)
    (h : ∀ item ∈ items, ∀ after, ReadsAt reader (bytesOf item) after (seen item after)) :
    ReadsAt (Decoder.readArray reader)
      (intBytes 4 (arrayLength nullable items.length) ++ items.flatMap bytesOf) after
      (seenEach seen bytesOf items after) := by
  have hlead : FitsInt 4 (arrayLength nullable items.length) := by
    rw [arrayLength, FitsInt]
    split <;> omega
  refine ReadsAt.bind ((reads_readInt hlead.1 hlead.2).readsAt _) ?_
  rw [arrayLength]
  split
  · next hempty =>
      rw [List.eq_nil_of_length_eq_zero hempty.2, Decoder.readElements, if_pos rfl]
      exact (Reads.pure []).readsAt after
  · rw [Decoder.readElements, if_neg (by omega), if_neg (by omega), Int.toNat_natCast]
    exact readsAt_readMany h

/-- Elements that are read the same whatever follows. -/
theorem seenEach_const {α β : Type} (f : α → β) (bytesOf : α → Bytes) (items : List α)
    (after : Bytes) : seenEach (fun item _ => f item) bytesOf items after = items.map f := by
  induction items with
  | nil => rfl
  | cons item items ih => rw [seenEach, ih, List.map_cons]

/-- A value in range is read as `seen` says, and the reader stops where its bytes end. -/
theorem readsAt_read (kind : Kind) (value : kind.Value) (hrange : kind.InRange value)
    (hsize : (kind.encoding value).length < 2 ^ 31) (after : Bytes) :
    ReadsAt kind.read (kind.encoding value) after (kind.seen value after) := by
  induction kind generalizing after with
  | int8 | int16 | int32 => exact (reads_readInt hrange.1 hrange.2).readsAt after
  | int64 =>
      obtain ⟨hlower, hupper⟩ := hrange
      exact (reads_readInt64 (by omega) (by omega)).readsAt after
  | boolean => exact (reads_readBoolean value).readsAt after
  | varInt =>
      obtain ⟨hlower, hupper⟩ := hrange
      exact (reads_readVarInt (by omega) (by omega)).readsAt after
  | uVarInt =>
      obtain ⟨hlower, hupper⟩ := hrange
      obtain ⟨number, rfl⟩ := Int.eq_ofNat_of_zero_le hlower
      have hlt : (number : Int) < 2 ^ 32 := hupper
      exact (reads_readUVarInt_of_lt (by omega)).readsAt after
  | varLong =>
      obtain ⟨hlower, hupper⟩ := hrange
      exact (reads_readVarLong (by omega) (by omega)).readsAt after
  | string => exact (reads_readString hrange).readsAt after
  | varIntString =>
      refine (reads_readNullableVarIntString fun text htext => ?_).readsAt after
      rw [Option.mem_def.mp htext] at hsize
      simp only [encoding, lengthPrefixed, Option.map_some, List.length_append] at hsize
      omega
  | uVarIntString =>
      refine (reads_readUVarIntString fun text htext => ?_).readsAt after
      rw [Option.mem_def.mp htext] at hsize
      simp only [encoding, compactBytes, Option.map_some, List.length_append] at hsize
      omega
  | bytes =>
      refine (reads_readBytes fun bytes hbytes => ?_).readsAt after
      simp only [encoding, Option.mem_def.mp hbytes, sizedBytes, List.length_append] at hsize
      omega
  | varIntBytes =>
      refine (reads_readVarIntBytes fun bytes hbytes => ?_).readsAt after
      simp only [encoding, Option.mem_def.mp hbytes, lengthPrefixed, List.length_append] at hsize
      omega
  | uVarIntBytes =>
      refine readsAt_readUVarIntBytes (fun bytes hbytes => ?_) after
      simp only [encoding, Option.mem_def.mp hbytes, compactBytes, List.length_append] at hsize
      omega
  | uuid => exact (reads_readUUID hrange).readsAt after
  | numbers nullable =>
      have hcount := @length_le_flatMap _ value (intBytes 4) fun _ _ => by simp
      simp only [encoding, List.length_append] at hsize
      have hreads := @readsAt_readArray _ _ _ value (intBytes 4) (fun item _ => item) after nullable
        (by omega) fun number hmem after =>
          (reads_readInt (hrange number hmem).1 (hrange number hmem).2).readsAt after
      rw [seenEach_const (fun item => item), List.map_id'] at hreads
      exact hreads
  | strings nullable =>
      have hcount := @length_le_flatMap _ value stringBytes fun text hmem =>
        length_encoding_pos .string text (hrange text hmem)
      simp only [encoding, List.length_append] at hsize
      have hreads := @readsAt_readArray _ _ _ value stringBytes
        (fun text _ => text.map Text.toWellFormed) after nullable (by omega) fun text hmem after =>
          (reads_readString (hrange text hmem)).readsAt after
      rw [seenEach_const] at hreads
      exact hreads
  | array nullable element ih =>
      simp only [encoding, List.length_append] at hsize
      have hcount := @length_le_flatMap _ value element.encoding fun item hmem =>
        length_encoding_pos element item (hrange item hmem)
      -- an element is a part of the array, so its bytes fit as well
      refine readsAt_readArray nullable (by omega) fun item hmem after => ?_
      have hle := @length_le_flatMap_of_mem _ _ element.encoding _ hmem
      exact ih item (hrange item hmem) (by omega) after
  | varIntArray element ih =>
      simp only [encoding, List.length_append] at hsize
      have hcount := @length_le_flatMap _ value element.encoding fun item hmem =>
        length_encoding_pos element item (hrange item hmem)
      refine ReadsAt.bind ((reads_readVarInt (by omega) (by omega)).readsAt _) ?_
      rw [Decoder.readElements, if_neg (by omega), if_neg (by omega), Int.toNat_natCast]
      refine readsAt_readMany fun item hmem after => ?_
      have hle := @length_le_flatMap_of_mem _ _ element.encoding _ hmem
      exact ih item (hrange item hmem) (by omega) after
  | uVarIntArray element ih =>
      cases value with
      | none =>
          rw [encoding, ← List.append_nil (Protocol.uVarIntBytes 0#32)]
          refine ReadsAt.bind (reads_readUVarInt_zero.readsAt _) ?_
          rw [if_pos rfl]
          exact (Reads.pure none).readsAt after
      | some values =>
          simp only [encoding, List.length_append] at hsize
          have hcount := @length_le_flatMap _ values element.encoding fun item hmem =>
            length_encoding_pos element item (hrange values rfl item hmem)
          refine ReadsAt.bind ((reads_compactLength (by omega)).readsAt _) ?_
          rw [if_neg (by omega), Nat.add_sub_cancel]
          refine (readsAt_readMany fun item hmem after => ?_).map
          have hle := @length_le_flatMap_of_mem _ _ element.encoding _ hmem
          exact ih item (hrange values rfl item hmem) (by omega) after
  | pair first second ihfirst ihsecond =>
      simp only [encoding, List.length_append] at hsize
      refine ReadsAt.bind (ihfirst value.1 hrange.1 (by omega) _) ?_
      exact (ihsecond value.2 hrange.2 (by omega) after).map

/-! ### Where reading gives back what was written -/

section Elements

variable {α β : Type} {seen : α → Bytes → β} {expected : α → β} {bytesOf : α → Bytes}
  {items : List α} {P : α → Prop}

/-- Items that are each seen as expected, whatever follows, are seen as expected together. -/
theorem seenEach_of_forall (h : ∀ item ∈ items, ∀ after, seen item after = expected item)
    (after : Bytes) : seenEach seen bytesOf items after = items.map expected := by
  induction items with
  | nil => rfl
  | cons item items ih =>
      rw [seenEach, List.map_cons, h item List.mem_cons_self,
        ih fun other hother => h other (List.mem_cons_of_mem item hother)]

/-- Where elements read as expected, each of them does, with something behind it. -/
theorem forall_of_seenEach {after : Bytes} (hafter : after ≠ [])
    (h : ∀ item, ∀ after ≠ [], seen item after = expected item → P item)
    (heq : seenEach seen bytesOf items after = items.map expected) : ∀ item ∈ items, P item := by
  induction items with
  | nil => simp
  | cons item items ih =>
      rw [seenEach, List.map_cons, List.cons.injEq] at heq
      intro other hother
      rcases List.mem_cons.mp hother with rfl | hother
      · exact h other _ (List.append_ne_nil_of_right_ne_nil _ hafter) heq.1
      · exact ih heq.2 other hother

end Elements

/-- Without compact bytes, a value reads as expected whatever follows. -/
theorem seen_eq_expected (kind : Kind) (value : kind.Value) (h : kind.NoCompactBytes value)
    (after : Bytes) : kind.seen value after = kind.expected value := by
  induction kind generalizing after with
  | uVarIntBytes =>
      cases h
      rfl
  | array _ element ih | varIntArray element ih =>
      exact seenEach_of_forall (fun item hmem => ih item (h item hmem)) after
  | uVarIntArray element ih =>
      cases value with
      | none => rfl
      | some values =>
          exact congrArg some (seenEach_of_forall (fun item hmem => ih item (h values rfl item hmem))
            after)
  | pair first second ihfirst ihsecond =>
      exact Prod.ext (ihfirst value.1 h.1 _) (ihsecond value.2 h.2 after)
  | _ => rfl

/-- Where something follows, compact bytes do not read as expected. -/
theorem noCompactBytes_of_seen (kind : Kind) (value : kind.Value) {after : Bytes}
    (hafter : after ≠ []) (h : kind.seen value after = kind.expected value) :
    kind.NoCompactBytes value := by
  induction kind generalizing after with
  | uVarIntBytes =>
      cases value with
      | none => rfl
      | some payload =>
          -- the next byte came along
          have hbytes : payload.bytes ++ after.take 1 = payload.bytes := Option.some.inj h
          rw [List.append_right_eq_self, List.take_eq_nil_iff] at hbytes
          exact absurd (hbytes.resolve_left (by decide)) hafter
  | array _ element ih | varIntArray element ih =>
      exact forall_of_seenEach hafter (fun item _ hafter hitem => ih item hafter hitem) h
  | uVarIntArray element ih =>
      intro array harray
      rw [Option.mem_def.mp harray] at h
      exact forall_of_seenEach hafter (fun item _ hafter hitem => ih item hafter hitem)
        (Option.some.inj h)
  | pair first second ihfirst ihsecond =>
      obtain ⟨hfirst, hsecond⟩ := Prod.ext_iff.mp h
      exact ⟨ihfirst value.1 (List.append_ne_nil_of_right_ne_nil _ hafter) hfirst,
        ihsecond value.2 hafter hsecond⟩
  | _ => trivial

end Kind

/-! ## Sequences -/

/-- A value to write, with the writer and reader to use. -/
abbrev Item := (kind : Kind) × kind.Value

/-- A value that was read. -/
abbrev ReadItem := (kind : Kind) × kind.Read

/-- The bytes of a sequence of items. -/
def itemsBytes (items : List Item) : Bytes := items.flatMap fun item => item.1.encoding item.2

/-- Write the items in order, and note the offset of the encoder after each of them. -/
def writeItems : List Item → Encoder → Except KafkaError (Encoder × List Int)
  | [], encoder => pure (encoder, [])
  | item :: items, encoder => do
      let encoder ← item.1.write item.2 encoder
      let (last, marks) ← writeItems items encoder
      pure (last, encoder.offset :: marks)

/-- Read values of the given kinds in order, and note the offset of the decoder after each. -/
def readItems : List Kind → Reader (List ReadItem × List Int)
  | [] => pure ([], [])
  | kind :: kinds => do
      let value ← kind.read
      let decoder ← get
      let (values, marks) ← readItems kinds
      pure (⟨kind, value⟩ :: values, decoder.offset :: marks)

/-- The items are written, and whatever follows their bytes, the matching readers return their
values, each leaving the decoder at the offset at which the encoder left the item. -/
def Undone (items : List Item) : Prop :=
  ∃ encoder marks, writeItems items Encoder.new = .ok (encoder, marks) ∧
    ∀ following, ∃ decoder,
      readItems (items.map Sigma.fst) (Decoder.new (encoder.buffer ++ following)) =
        .ok ((items.map fun item => ⟨item.1, item.1.expected item.2⟩, marks), decoder)

/-- The offsets after each item, for items that start at `start`. -/
def marksFrom (start : Nat) : List Item → List Int
  | [] => []
  | item :: items =>
      ((start + (item.1.encoding item.2).length : Nat) : Int) ::
        marksFrom (start + (item.1.encoding item.2).length) items

/-- The values read from a sequence of items with `after` behind it. -/
def seenItems : List Item → Bytes → List ReadItem
  | [], _ => []
  | item :: items, after =>
      ⟨item.1, item.1.seen item.2 (itemsBytes items ++ after)⟩ :: seenItems items after

/-- The first item is written in front of the others. -/
theorem itemsBytes_cons (item : Item) (items : List Item) :
    itemsBytes (item :: items) = item.1.encoding item.2 ++ itemsBytes items := rfl

/-- A sequence is written item by item, unless the encoder would have to hold `2 ^ 30` bytes. -/
theorem writeItems_cases {items : List Item} (hrange : ∀ item ∈ items, item.1.InRange item.2)
    {encoder : Encoder} {data : Bytes} (hholds : encoder.Holds data)
    (hsize : data.length + (itemsBytes items).length < 2 ^ 31) :
    (∃ next, writeItems items encoder = .ok (next, marksFrom data.length items) ∧
        next.Holds (data ++ itemsBytes items)) ∨
      (2 ^ 30 ≤ data.length + (itemsBytes items).length ∧
        ∃ error, writeItems items encoder = .error error) := by
  induction items generalizing encoder data with
  | nil => exact Or.inl ⟨encoder, rfl, by simpa [itemsBytes] using hholds⟩
  | cons item items ih =>
      rw [itemsBytes_cons, List.length_append] at hsize ⊢
      have hwrites := item.1.writes_write item.2 (hrange item List.mem_cons_self) (by omega)
      rcases hwrites encoder data hholds (by omega) with
        ⟨middle, hmiddle, hdata, -⟩ | ⟨hlarge, -, error, herror⟩
      · have hrest := @ih (fun other hother => hrange other (List.mem_cons_of_mem item hother))
          middle _ hdata (by rw [List.length_append]; omega)
        rw [List.length_append] at hrest
        rcases hrest with ⟨next, hnext, hall⟩ | ⟨hlarge, error, herror⟩
        · refine Or.inl ⟨next, ?_, by rwa [List.append_assoc] at hall⟩
          rw [writeItems, hmiddle, ok_bind, hnext, ok_bind, marksFrom, hdata.offset,
            List.length_append]
          rfl
        · exact Or.inr ⟨by omega, error, by rw [writeItems, hmiddle, ok_bind, herror, error_bind]⟩
      · exact Or.inr ⟨by omega, error, by rw [writeItems, herror, error_bind]⟩

/-- A sequence is read item by item, each where the previous one ended. -/
theorem readItems_eq {items : List Item} (hrange : ∀ item ∈ items, item.1.InRange item.2)
    (hsize : (itemsBytes items).length < 2 ^ 31) (after before : Bytes) :
    readItems (items.map Sigma.fst) ⟨before ++ (itemsBytes items ++ after), before.length⟩ =
      .ok ((seenItems items after, marksFrom before.length items),
        ⟨before ++ (itemsBytes items ++ after),
          (before.length : Int) + (itemsBytes items).length⟩) := by
  induction items generalizing before with
  | nil =>
      show Except.ok (([], []), _) = Except.ok (([], []), _)
      simp [itemsBytes]
  | cons item items ih =>
      rw [itemsBytes_cons, List.length_append] at hsize
      have hfirst := item.1.readsAt_read item.2 (hrange item List.mem_cons_self) (by omega)
        (itemsBytes items ++ after) before
      have hrest := ih (fun other hother => hrange other (List.mem_cons_of_mem item hother))
        (by omega) (before ++ item.1.encoding item.2)
      simp only [List.append_assoc, List.length_append, Nat.cast_add] at hrest
      rw [itemsBytes_cons, List.append_assoc]
      show (item.1.read _ >>= fun pair => _) = _
      rw [hfirst, ok_bind]
      show (readItems (items.map Sigma.fst) _ >>= fun pair => _) = _
      rw [hrest, ok_bind, seenItems, marksFrom, List.length_append, Nat.cast_add, Nat.cast_add,
        Int.add_assoc]
      rfl

/-- The values that are read are those that were written if no compact bytes are. -/
theorem seenItems_eq_expected {items : List Item} (h : ∀ item ∈ items, item.1.NoCompactBytes item.2)
    (after : Bytes) :
    seenItems items after = items.map fun item => ⟨item.1, item.1.expected item.2⟩ := by
  induction items with
  | nil => rfl
  | cons item items ih =>
      rw [seenItems, List.map_cons, item.1.seen_eq_expected item.2 (h item List.mem_cons_self),
        ih fun other hother => h other (List.mem_cons_of_mem item hother)]

/-- Items that come back as written, with bytes behind them, hold no compact bytes. -/
theorem noCompactBytes_of_seenItems {items : List Item} {after : Bytes} (hafter : after ≠ [])
    (h : seenItems items after = items.map fun item => ⟨item.1, item.1.expected item.2⟩) :
    ∀ item ∈ items, item.1.NoCompactBytes item.2 := by
  induction items with
  | nil => simp
  | cons item items ih =>
      rw [seenItems, List.map_cons, List.cons.injEq, Sigma.mk.injEq] at h
      intro other hother
      rcases List.mem_cons.mp hother with rfl | hother
      · exact other.1.noCompactBytes_of_seen other.2 (List.append_ne_nil_of_right_ne_nil _ hafter)
          (eq_of_heq h.1.2)
      · exact ih h.2 other hother

/-- A sequence that is undone holds no compact bytes: they come back with the byte that follows
them. -/
theorem Undone.noCompactBytes {items : List Item} (h : Undone items)
    (hrange : ∀ item ∈ items, item.1.InRange item.2) (hsize : (itemsBytes items).length < 2 ^ 31) :
    (∀ item ∈ items, item.1.NoCompactBytes item.2) ∧ (itemsBytes items).length ≤ 2 ^ 30 := by
  obtain ⟨encoder, marks, hwritten, hread⟩ := h
  rcases writeItems_cases hrange Encoder.holds_new (by simpa using hsize) with
    ⟨other, hother, hholds⟩ | ⟨-, error, herror⟩
  · cases hother.symm.trans hwritten
    refine ⟨?_, hholds.length_le.trans hholds.bounded⟩
    -- one byte behind the sequence tells the compact bytes apart
    obtain ⟨decoder, hdecoder⟩ := hread [0]
    rw [hholds.buffer_eq] at hdecoder
    have heq := (readItems_eq hrange hsize [0] []).symm.trans hdecoder
    simp only [Except.ok.injEq, Prod.mk.injEq] at heq
    exact noCompactBytes_of_seenItems (by decide) heq.1.1
  · cases hwritten.symm.trans herror

/-- A sequence of values in range that takes less than `2 ^ 30` bytes and holds no compact bytes
other than null is undone by its readers. No other sequence of less than `2 ^ 31` bytes is, but
perhaps one that fills an encoder of `2 ^ 30` bytes exactly. -/
theorem undone_iff {items : List Item} (hrange : ∀ item ∈ items, item.1.InRange item.2) :
    ((∀ item ∈ items, item.1.NoCompactBytes item.2) ∧ (itemsBytes items).length < 2 ^ 30 →
      Undone items) ∧
    ((itemsBytes items).length < 2 ^ 31 → Undone items →
      (∀ item ∈ items, item.1.NoCompactBytes item.2) ∧ (itemsBytes items).length ≤ 2 ^ 30) := by
  refine ⟨?_, fun hsize h => h.noCompactBytes hrange hsize⟩
  rintro ⟨hplain, hsize⟩
  rcases writeItems_cases hrange Encoder.holds_new (by simp only [List.length_nil]; omega) with
    ⟨encoder, hwritten, hholds⟩ | ⟨hlarge, -⟩
  · refine ⟨encoder, _, hwritten, fun following => ?_⟩
    rw [hholds.buffer_eq, ← seenItems_eq_expected hplain following]
    exact ⟨_, readItems_eq hrange (by omega) following []⟩
  · rw [List.length_nil] at hlarge
    omega

/-- An array of pairs, a compact string, compact null, a UUID, an empty array and a boolean. -/
def sampleItems : List Item :=
  [⟨.uVarIntArray (.pair .string .varLong), some [(some (Text.ofString "a"), -5), (none, 7)]⟩,
    ⟨.uVarIntString, some (Text.ofString "topic")⟩, ⟨.uVarIntBytes, none⟩,
    ⟨.uuid, some (Text.ofString "00112233-4455-6677-8899-AABBCCDDEEFF")⟩,
    ⟨.strings true, []⟩, ⟨.boolean, true⟩]

/-- The sample items are undone. -/
theorem undone_sampleItems : Undone sampleItems := by
  refine (undone_iff ?_).1 ⟨?_, by decide⟩
  · simp only [sampleItems, List.forall_mem_cons, Kind.InRange, FitsInt]
    refine ⟨?_, trivial, trivial, ?_, ?_, trivial, ?_⟩
    · rintro array ⟨⟩
      simp
      decide
    · rintro text ⟨⟩
      decide
    · exact nofun
    · exact nofun
  · simp [sampleItems, Kind.NoCompactBytes]

/-- Compact bytes in front of another item come back with its first byte. -/
theorem not_undone_compactBytes :
    (∀ item ∈ [(⟨.uVarIntBytes, some (.buffer [7])⟩ : Item), ⟨.int8, 9⟩],
      item.1.InRange item.2) ∧
    ¬ Undone [⟨.uVarIntBytes, some (.buffer [7])⟩, ⟨.int8, 9⟩] := by
  have hrange : ∀ item ∈ [(⟨.uVarIntBytes, some (.buffer [7])⟩ : Item), ⟨.int8, 9⟩],
      item.1.InRange item.2 := by
    simp only [List.forall_mem_cons]
    exact ⟨trivial, show FitsInt 1 9 by decide, by simp⟩
  refine ⟨hrange, fun h => ?_⟩
  have hbytes := (h.noCompactBytes hrange (by decide)).1 _ List.mem_cons_self
  cases hbytes

end KafkaJs.Protocol
