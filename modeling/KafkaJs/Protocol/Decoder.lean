import KafkaJs.Protocol.Encoder

/-!
# The decoder

`protocol/decoder.js`: a buffer and the offset of the next read. A length read from the buffer
may be negative, and then the offset moves back, so offsets are integers. Reads past the end
throw, see `undefined` or see a shorter slice, depending on the reader.

`Reads` says that a reader recovers a value from given bytes wherever they stand in a buffer and
whatever follows them, and leaves the offset right behind them. `Reads.bind` composes readers;
the lemmas after it say that each reader undoes its writer.
-/

namespace KafkaJs.Protocol

open KafkaJs.Data

/-- A decoder. -/
structure Decoder where
  buffer : Bytes
  offset : Int
  deriving DecidableEq

/-- A read: a value and the decoder afterwards, or an error. -/
abbrev Reader (α : Type) := StateT Decoder (Except KafkaError) α

/-- Where an index of `slice` points: negative ones count from the end. -/
def sliceIndex (length : Nat) (index : Int) : Nat :=
  if index < 0 then (length + index).toNat else min index.toNat length

/-- `buffer.slice(start, stop)`. -/
def slice (buffer : Bytes) (start stop : Int) : Bytes :=
  (buffer.drop (sliceIndex buffer.length start)).take
    (sliceIndex buffer.length stop - sliceIndex buffer.length start)

namespace Decoder

/-- `new Decoder(buffer)`. -/
def new (buffer : Bytes) : Decoder := ⟨buffer, 0⟩

/-- `this.buffer[this.offset + index]`. -/
def byteAt (decoder : Decoder) (index : Nat) : Option UInt8 :=
  if decoder.offset + index < 0 then none else decoder.buffer[(decoder.offset + index).toNat]?

/-- The bytes from the offset on. -/
def remaining (decoder : Decoder) : Bytes :=
  if decoder.offset < 0 then [] else decoder.buffer.drop decoder.offset.toNat

/-- `slice(size)`: a decoder of its own for the next bytes. -/
def slice (size : Int) (decoder : Decoder) : Decoder :=
  new (Protocol.slice decoder.buffer decoder.offset (decoder.offset + size))

/-- `forward(size)`. -/
def forward (size : Int) : Reader Unit := modify fun decoder =>
  { decoder with offset := decoder.offset + size }

/-- The readers of fixed width signed integers. -/
def readInt (width : Nat) : Reader Int := fun decoder =>
  if decoder.offset < 0 ∨ decoder.buffer.length < decoder.offset + width then .error outOfRange
  else
    .ok ((ofBigEndian ((decoder.buffer.drop decoder.offset.toNat).take width) : Int).bmod
        (256 ^ width),
      { decoder with offset := decoder.offset + width })

/-- `readInt8`. -/
def readInt8 : Reader Int := readInt 1

/-- `readInt16`. -/
def readInt16 : Reader Int := readInt 2

/-- `readInt32`. -/
def readInt32 : Reader Int := readInt 4

/-- `readInt64`. A byte that is missing makes the sums `NaN`, which has no `BigInt`; only the
first one is shifted and counts as zero. -/
def readInt64 : Reader Int := fun decoder =>
  match decoder.byteAt 1, decoder.byteAt 2, decoder.byteAt 3, decoder.byteAt 4,
    decoder.byteAt 5, decoder.byteAt 6, decoder.byteAt 7 with
  | some b1, some b2, some b3, some b4, some b5, some b6, some last =>
      let first := (decoder.byteAt 0).getD 0
      let low := (BitVec.ofNat 32 first.toNat <<< 24).toInt +
        b1.toNat * 2 ^ 16 + b2.toNat * 2 ^ 8 + b3.toNat
      let high : Int := b4.toNat * 2 ^ 24 + b5.toNat * 2 ^ 16 + b6.toNat * 2 ^ 8 + last.toNat
      .ok (low * 2 ^ 32 + high, { decoder with offset := decoder.offset + 8 })
  | _, _, _, _, _, _, _ => .error outOfRange

/-- `readVarInt`. -/
def readVarInt : Reader Int := fun decoder =>
  let (value, count) := readVarIntFrom decoder.remaining
  .ok (value, { decoder with offset := decoder.offset + count })

/-- `readVarLong`. -/
def readVarLong : Reader Int := fun decoder =>
  match readVarLongFrom decoder.remaining with
  | some (value, count) => .ok (value, { decoder with offset := decoder.offset + count })
  | none =>
      .error { name := .kafkaJSNonRetriableError,
               message := "Invalid Long, must contain 9 bytes or less", retriable := some false }

/-- The next `byteLength` bytes, as the readers of bytes and strings take them. -/
def take (byteLength : Int) : Reader Bytes := fun decoder =>
  .ok (Protocol.slice decoder.buffer decoder.offset (decoder.offset + byteLength),
    { decoder with offset := decoder.offset + byteLength })

/-- `readVarIntBytes`. -/
def readVarIntBytes : Reader (Option Bytes) := do
  let byteLength ← readVarInt
  if byteLength = -1 then pure none else some <$> take byteLength

/-- `readVarIntString`. -/
def readVarIntString : Reader (Option Text) := do
  let byteLength ← readVarInt
  if byteLength = -1 then pure none else (fun bytes => some (Text.ofUtf8 bytes)) <$> take byteLength

/-- `readAll`. -/
def readAll : Reader Bytes := fun decoder =>
  .ok (Protocol.slice decoder.buffer decoder.offset decoder.buffer.length,
    { decoder with offset := decoder.offset + decoder.buffer.length })

/-- `reader(this)`, `length` times. -/
def readMany {α : Type} (reader : Reader α) : Nat → Reader (List α)
  | 0 => pure []
  | length + 1 => do
      let value ← reader
      let values ← readMany reader length
      pure (value :: values)

/-- The loop of the array readers; `new Array(length)` throws on other negative lengths. -/
def readElements {α : Type} (reader : Reader α) (length : Int) : Reader (List α) :=
  if length = -1 then pure []
  else if length < 0 then throw outOfRange
  else readMany reader length.toNat

/-- `readArray`. -/
def readArray {α : Type} (reader : Reader α) : Reader (List α) := do
  let length ← readInt32
  readElements reader length

/-- `readVarIntArray`. -/
def readVarIntArray {α : Type} (reader : Reader α) : Reader (List α) := do
  let length ← readVarInt
  readElements reader length

end Decoder

/-! ## Readers undo writers -/

/-- The reader recovers `value` from `bytes` in every context and stops behind them. -/
def Reads {α : Type} (reader : Reader α) (bytes : Bytes) (value : α) : Prop :=
  ∀ before after : Bytes,
    reader ⟨before ++ (bytes ++ after), before.length⟩ =
      .ok (value, ⟨before ++ (bytes ++ after), before.length + bytes.length⟩)

/-- Two reads in one place, one after the other. -/
theorem read_bind {α β : Type} {reader : Reader α} {next : α → Reader β} {value : α} {result : β}
    {before head tail after : Bytes}
    (hfirst : reader ⟨before ++ (head ++ (tail ++ after)), before.length⟩ =
      .ok (value, ⟨before ++ (head ++ (tail ++ after)), before.length + head.length⟩))
    (hsecond : next value ⟨before ++ head ++ (tail ++ after), (before ++ head).length⟩ =
      .ok (result, ⟨before ++ head ++ (tail ++ after),
        (before ++ head).length + tail.length⟩)) :
    (reader >>= next) ⟨before ++ (head ++ tail ++ after), before.length⟩ =
      .ok (result, ⟨before ++ (head ++ tail ++ after),
        before.length + (head ++ tail).length⟩) := by
  simp only [List.append_assoc, List.length_append, Nat.cast_add] at hsecond ⊢
  show (reader _ >>= fun pair => next pair.1 pair.2) = _
  rw [hfirst]
  show next value _ = _
  rw [hsecond, Int.add_assoc]

namespace Reads

variable {α β : Type} {reader : Reader α} {bytes head tail : Bytes} {value : α} {result : β}

/-- A reader that takes nothing. -/
theorem pure (value : α) : Reads (Pure.pure value) [] value := by
  intro before after
  show Except.ok (value, _) = Except.ok (value, _)
  simp

/-- Two reads, one after the other. -/
theorem bind {next : α → Reader β} (hfirst : Reads reader head value)
    (hsecond : Reads (next value) tail result) :
    Reads (reader >>= next) (head ++ tail) result := fun before after =>
  read_bind (hfirst before (tail ++ after)) (hsecond (before ++ head) after)

/-- The value that was read, after a function. -/
theorem map {f : α → β} (h : Reads reader bytes value) : Reads (f <$> reader) bytes (f value) := by
  intro before after
  show (reader _ >>= fun pair => Pure.pure (f pair.1, pair.2)) = _
  rw [h before after]
  rfl

end Reads

/-- A computation that does not read, before one that does. -/
theorem liftM_ok_bind {α β : Type} (value : α) (next : α → Reader β) :
    ((liftM (Except.ok value : Except KafkaError α) : Reader α) >>= next) = next value := rfl

section Readers

variable {before after bytes : Bytes}

/-- What remains behind the bytes before. -/
theorem remaining_append :
    Decoder.remaining ⟨before ++ (bytes ++ after), before.length⟩ = bytes ++ after := by
  rw [Decoder.remaining, if_neg (by simp)]
  simp

/-- The slice from the end of `before` over `bytes`. -/
theorem slice_append :
    slice (before ++ (bytes ++ after)) before.length (before.length + bytes.length) = bytes := by
  have hstart : sliceIndex (before ++ (bytes ++ after)).length before.length = before.length := by
    rw [sliceIndex, if_neg (by simp), Int.toNat_natCast]
    simp
  have hstop : sliceIndex (before ++ (bytes ++ after)).length (before.length + bytes.length) =
      before.length + bytes.length := by
    rw [sliceIndex, if_neg (by omega)]
    simp only [List.length_append]
    omega
  rw [slice, hstart, hstop, List.drop_left, Nat.add_sub_cancel_left, List.take_left]

/-- An integer within its bounds is read back. -/
theorem reads_readInt {width : Nat} {value : Int} (hlower : -(256 ^ width / 2) ≤ value)
    (hupper : value < 256 ^ width / 2) :
    Reads (Decoder.readInt width) (intBytes width value) value := by
  intro before after
  have hroom : ¬ ((before.length : Int) < 0 ∨
      ((before ++ (intBytes width value ++ after)).length : Int) < before.length + width) := by
    simp only [List.length_append, length_intBytes]
    omega
  have htake : (intBytes width value ++ after).take width = intBytes width value := by
    rw [List.take_append_of_le_length (by simp), List.take_of_length_le (by simp)]
  have hvalue : (ofBigEndian (intBytes width value) : Int).bmod (256 ^ width) = value :=
    bmod_ofBigEndian (by push_cast; exact hlower) (by push_cast; exact hupper)
  rw [Decoder.readInt, if_neg hroom]
  simp only [Int.toNat_natCast, List.drop_left, htake, hvalue, length_intBytes]

/-- An unsigned field of 32 bits reads as the signed integer with the same bits. -/
theorem reads_readInt32_bigEndian {value : Nat} (h : value < 2 ^ 32) :
    Reads Decoder.readInt32 (bigEndian 4 value) ((value : Int).bmod (256 ^ 4)) := by
  have hbytes : bigEndian 4 value = intBytes 4 ((value : Int).bmod (256 ^ 4)) := by
    rw [intBytes, Int.bmod_emod]
    congr 1
    omega
  have hlower := @Int.le_bmod value (256 ^ 4) (by decide)
  have hupper := @Int.bmod_lt value (256 ^ 4) (by decide)
  rw [hbytes]
  exact reads_readInt (by omega) (by omega)

/-- The bytes behind those before. -/
theorem byteAt_append (index : Nat) :
    Decoder.byteAt ⟨before ++ (bytes ++ after), before.length⟩ index = (bytes ++ after)[index]? := by
  have hindex : ((before.length : Int) + index).toNat = before.length + index := by omega
  have hpositive : ¬ (before.length : Int) + index < 0 := by omega
  rw [Decoder.byteAt, if_neg hpositive, hindex, List.getElem?_append_right (by omega),
    Nat.add_sub_cancel_left]

/-- The highest byte of a signed integer, shifted into place on 32 bits. -/
theorem toInt_shiftLeft_byte {n : Nat} (h : n < 256) :
    (BitVec.ofNat 32 n <<< 24).toInt =
      if n < 128 then (n : Int) * 2 ^ 24 else (n : Int) * 2 ^ 24 - 2 ^ 32 := by
  have hvalue : (BitVec.ofNat 32 n <<< 24).toNat = n * 2 ^ 24 := by
    rw [BitVec.toNat_shiftLeft, BitVec.toNat_ofNat, Nat.shiftLeft_eq]
    omega
  rw [BitVec.toInt_eq_toNat_cond, hvalue]
  split <;> split <;> push_cast <;> omega

/-- The four bytes of a 32-bit integer, added up as `readInt64` does for the first half. -/
theorem signedSum_eq {value : Int} {n : Nat} (hlower : -2 ^ 31 ≤ value) (hupper : value < 2 ^ 31)
    (hn : (n : Int) = value % 2 ^ 32) :
    (BitVec.ofNat 32 (n / 256 ^ 3 % 256) <<< 24).toInt + (n / 256 ^ 2 % 256 : Nat) * 2 ^ 16 +
      (n / 256 ^ 1 % 256 : Nat) * 2 ^ 8 + (n / 256 ^ 0 % 256 : Nat) = value := by
  rw [toInt_shiftLeft_byte (Nat.mod_lt _ (by decide))]
  split <;> omega

/-- An `int64` within its bounds is read back. -/
theorem reads_readInt64 {value : Int} (hlower : -2 ^ 63 ≤ value) (hupper : value < 2 ^ 63) :
    Reads Decoder.readInt64 (int64Bytes value) value := by
  intro before after
  have hhigh : Long.getHighBits value = value / 2 ^ 32 := by
    rw [Long.getHighBits, Long.shiftRight, Long.asIntN]
    exact Int.bmod_eq_of_le (by norm_num; omega) (by norm_num; omega)
  have hlow : Long.getLowBits value % 2 ^ 32 = value % 2 ^ 32 := Int.bmod_emod
  -- the two halves as unsigned numbers; the bytes are theirs
  obtain ⟨m, hm⟩ : ∃ m : Nat, (m : Int) = value / 2 ^ 32 % 2 ^ 32 :=
    ⟨(value / 2 ^ 32 % 2 ^ 32).toNat, by omega⟩
  obtain ⟨n, hn⟩ : ∃ n : Nat, (n : Int) = value % 2 ^ 32 := ⟨(value % 2 ^ 32).toNat, by omega⟩
  have hbytes : int64Bytes value = bigEndian 4 m ++ bigEndian 4 n := by
    have hm' : (Long.getHighBits value % (256 ^ 4 : Nat)).toNat = m := by
      rw [hhigh]
      norm_num
      omega
    have hn' : (Long.getLowBits value % (256 ^ 4 : Nat)).toNat = n := by
      have hcast : ((256 ^ 4 : Nat) : Int) = 2 ^ 32 := by norm_num
      rw [hcast, hlow]
      omega
    rw [int64Bytes, intBytes, intBytes, hm', hn']
  have hfirst := @signedSum_eq (value / 2 ^ 32) m (by omega) (by omega) hm
  have hbyte : ∀ k, (UInt8.ofNat (k % 256)).toNat = k % 256 := fun k =>
    Text.toNat_ofNat_byte (Nat.mod_lt k (by decide))
  rw [hbytes]
  unfold Decoder.readInt64
  simp only [byteAt_append]
  simp only [bigEndian, List.cons_append, List.nil_append, List.getElem?_cons_zero,
    List.getElem?_cons_succ, Option.getD_some, hbyte, hfirst]
  refine congrArg Except.ok (Prod.ext ?_ rfl)
  show value / 2 ^ 32 * 2 ^ 32 + _ = value
  push_cast
  omega

/-- A varint is read back. -/
theorem reads_readVarInt {value : Int} (hlower : -2 ^ 31 ≤ value) (hupper : value < 2 ^ 31) :
    Reads Decoder.readVarInt (varIntBytes value) value := by
  intro before after
  rw [Decoder.readVarInt, remaining_append, readVarIntFrom_varIntBytes after hlower hupper]

/-- A varlong is read back. -/
theorem reads_readVarLong {value : Int} (hlower : -2 ^ 63 ≤ value) (hupper : value < 2 ^ 63) :
    Reads Decoder.readVarLong (varLongBytes value) value := by
  intro before after
  rw [Decoder.readVarLong, remaining_append, readVarLongFrom_varLongBytes after hlower hupper]

/-- A given number of bytes is read. -/
theorem reads_take (bytes : Bytes) : Reads (Decoder.take bytes.length) bytes bytes := by
  intro before after
  rw [Decoder.take, slice_append]

/-- Length prefixed bytes, null included. -/
theorem reads_readVarIntBytes {value : Option Bytes}
    (h : ∀ bytes ∈ value, bytes.length < 2 ^ 31) :
    Reads Decoder.readVarIntBytes (lengthPrefixed value) value := by
  cases value with
  | none =>
      rw [lengthPrefixed, ← List.append_nil (varIntBytes (-1))]
      refine (reads_readVarInt (by decide) (by decide)).bind ?_
      rw [if_pos rfl]
      exact Reads.pure none
  | some bytes =>
      have hlength := h bytes rfl
      refine (reads_readVarInt (by omega) (by omega)).bind ?_
      rw [if_neg (by omega)]
      exact (reads_take bytes).map

/-- A length prefixed string reads back as its well-formed text. -/
theorem reads_readVarIntString {text : Text} (h : text.toUtf8.length < 2 ^ 31) :
    Reads Decoder.readVarIntString (lengthPrefixed (some text.toUtf8))
      (some text.toWellFormed) := by
  refine (reads_readVarInt (by omega) (by omega)).bind ?_
  rw [if_neg (by omega), ← Text.ofUtf8_toUtf8]
  exact (reads_take text.toUtf8).map

/-- Many items are read back one after the other. -/
theorem reads_readMany {α β : Type} {reader : Reader β} {items : List α} {bytesOf : α → Bytes}
    {valueOf : α → β} (h : ∀ item ∈ items, Reads reader (bytesOf item) (valueOf item)) :
    Reads (Decoder.readMany reader items.length) (items.flatMap bytesOf) (items.map valueOf) := by
  induction items with
  | nil => exact Reads.pure []
  | cons item items ih =>
      have hrest := ih fun other hother => h other (List.mem_cons_of_mem item hother)
      refine (h item List.mem_cons_self).bind ?_
      exact hrest.map

/-- An array whose length fits is read element by element. -/
theorem reads_readElements {α β : Type} {reader : Reader β} {items : List α}
    {bytesOf : α → Bytes} {valueOf : α → β}
    (h : ∀ item ∈ items, Reads reader (bytesOf item) (valueOf item)) :
    Reads (Decoder.readElements reader items.length) (items.flatMap bytesOf)
      (items.map valueOf) := by
  rw [Decoder.readElements, if_neg (by omega), if_neg (by omega), Int.toNat_natCast]
  exact reads_readMany h

end Readers

end KafkaJs.Protocol
