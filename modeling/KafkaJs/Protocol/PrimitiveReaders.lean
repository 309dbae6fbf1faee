import KafkaJs.Protocol.Primitives

/-!
# The remaining readers undo their writers

`ReadsAt` is `Reads` for a reader whose result depends on the bytes that follow. There is one:
`readUVarIntBytes` takes the next byte along (`readsAt_readUVarIntBytes`). The other readers recover
what was written in every context.

A UUID is written from its text and read back in lower case, the nil UUID as null
(`reads_readUUID`).
-/

namespace KafkaJs.Protocol

open KafkaJs.Data

/-! ## Readers that look at what follows -/

/-- The reader finds `value` in `bytes` where `after` follows, wherever they stand in a buffer, and
stops behind them. -/
def ReadsAt {α : Type} (reader : Reader α) (bytes after : Bytes) (value : α) : Prop :=
  ∀ before : Bytes,
    reader ⟨before ++ (bytes ++ after), before.length⟩ =
      .ok (value, ⟨before ++ (bytes ++ after), before.length + bytes.length⟩)

section ReadsAt

variable {α β : Type} {reader : Reader α} {bytes head tail after : Bytes} {value : α} {result : β}

/-- A reader that recovers a value in every context does so in this one. -/
theorem Reads.readsAt (h : Reads reader bytes value) (after : Bytes) :
    ReadsAt reader bytes after value := fun before => h before after

/-- Two reads, one after the other; what the second one reads follows the first. -/
theorem ReadsAt.bind {next : α → Reader β} (hfirst : ReadsAt reader head (tail ++ after) value)
    (hsecond : ReadsAt (next value) tail after result) :
    ReadsAt (reader >>= next) (head ++ tail) after result := fun before =>
  read_bind (hfirst before) (hsecond (before ++ head))

/-- The value that was read, after a function. -/
theorem ReadsAt.map {f : α → β} (h : ReadsAt reader bytes after value) :
    ReadsAt (f <$> reader) bytes after (f value) := by
  intro before
  show (reader _ >>= fun pair => Pure.pure (f pair.1, pair.2)) = _
  rw [h before]
  rfl

/-- A reader whose result is not used is only passed over. -/
theorem ReadsAt.bind_ignored {rest : Reader β} (hfirst : Reads ((fun _ => ()) <$> reader) head ())
    (hrest : ReadsAt rest tail after result) :
    ReadsAt (reader >>= fun _ => rest) (head ++ tail) after result := by
  have hbind : ReadsAt (((fun _ => ()) <$> reader) >>= fun _ => rest) (head ++ tail) after result :=
    ReadsAt.bind (hfirst.readsAt (tail ++ after)) hrest
  rwa [bind_map_left] at hbind

/-- The slice from the end of `before` over the next `count` bytes. -/
theorem slice_take (before rest : Bytes) (count : Nat) :
    slice (before ++ rest) before.length (before.length + count) = rest.take count := by
  have hstart : sliceIndex (before ++ rest).length before.length = before.length := by
    rw [sliceIndex, if_neg (by omega), Int.toNat_natCast, List.length_append]
    omega
  have hstop : sliceIndex (before ++ rest).length (before.length + count) =
      min (before.length + count) (before.length + rest.length) := by
    rw [sliceIndex, if_neg (by omega), List.length_append]
    congr 1
  rw [slice, hstart, hstop, List.drop_left, List.take_eq_take_iff]
  omega

end ReadsAt

/-! ## The readers -/

section Readers

variable {after : Bytes}

/-- An unsigned varint is read back. -/
theorem reads_readUVarInt (value : BitVec 32) :
    Reads Decoder.readUVarInt (uVarIntBytes value) value.toNat := by
  intro before after
  rw [Decoder.readUVarInt, remaining_append, readUVarIntFrom_uVarIntBytes value after]

/-- An unsigned integer that fits 32 bits. -/
theorem reads_readUVarInt_of_lt {value : Nat} (h : value < 2 ^ 32) :
    Reads Decoder.readUVarInt (uVarIntBytes (BitVec.ofInt 32 value)) value := by
  have hreads := reads_readUVarInt (BitVec.ofInt 32 value)
  rwa [BitVec.ofInt_natCast, BitVec.toNat_ofNat, Nat.mod_eq_of_lt h] at hreads

/-- A boolean is read back. -/
theorem reads_readBoolean (value : Bool) :
    Reads Decoder.readBoolean (intBytes 1 (if value then 1 else 0)) value := by
  rw [← List.append_nil (intBytes 1 _)]
  cases value
  · exact (@reads_readInt 1 0 (by decide) (by decide)).bind (Reads.pure false)
  · exact (@reads_readInt 1 1 (by decide) (by decide)).bind (Reads.pure true)

/-- A string behind a 16-bit length reads back as its well-formed text. -/
theorem reads_readString {value : Option Text} (h : ∀ text ∈ value, text.toUtf8.length < 2 ^ 15) :
    Reads Decoder.readString (stringBytes value) (value.map Text.toWellFormed) := by
  cases value with
  | none =>
      rw [stringBytes, ← List.append_nil (intBytes 2 (-1))]
      refine (@reads_readInt 2 (-1) (by decide) (by decide)).bind ?_
      rw [if_pos rfl]
      exact Reads.pure none
  | some text =>
      have hlength := h text rfl
      refine (@reads_readInt 2 text.toUtf8.length (by omega) (by omega)).bind ?_
      rw [if_neg (by omega), Option.map_some, ← Text.ofUtf8_toUtf8]
      exact (reads_take text.toUtf8).map

/-- A nullable string behind a varint is read back. -/
theorem reads_readNullableVarIntString {value : Option Text}
    (h : ∀ text ∈ value, text.toUtf8.length < 2 ^ 31) :
    Reads Decoder.readVarIntString (lengthPrefixed (value.map Text.toUtf8))
      (value.map Text.toWellFormed) := by
  cases value with
  | none =>
      show Reads _ (varIntBytes (-1)) none
      rw [← List.append_nil (varIntBytes (-1))]
      refine (reads_readVarInt (by decide) (by decide)).bind ?_
      rw [if_pos rfl]
      exact Reads.pure none
  | some text => exact reads_readVarIntString (h text rfl)

/-- The length zero that stands for null. -/
theorem reads_readUVarInt_zero : Reads Decoder.readUVarInt (uVarIntBytes 0#32) 0 :=
  reads_readUVarInt 0#32

/-- The length of a compact value, one more than its bytes. -/
theorem reads_compactLength {length : Nat} (h : length + 1 < 2 ^ 32) :
    Reads Decoder.readUVarInt (uVarIntBytes (BitVec.ofInt 32 (length + 1))) (length + 1) := by
  have hreads := reads_readUVarInt_of_lt h
  push_cast at hreads
  exact hreads

/-- A nullable string in the compact form is read back. -/
theorem reads_readUVarIntString {value : Option Text}
    (h : ∀ text ∈ value, text.toUtf8.length + 1 < 2 ^ 32) :
    Reads Decoder.readUVarIntString (compactBytes (value.map Text.toUtf8))
      (value.map Text.toWellFormed) := by
  cases value with
  | none =>
      show Reads _ (uVarIntBytes 0#32) none
      rw [← List.append_nil (uVarIntBytes 0#32)]
      refine reads_readUVarInt_zero.bind ?_
      rw [if_pos rfl]
      exact Reads.pure none
  | some text =>
      refine (reads_compactLength (h text rfl)).bind ?_
      rw [if_neg (by omega), Option.map_some, ← Text.ofUtf8_toUtf8,
        show ((text.toUtf8.length + 1 : Nat) : Int) - 1 = text.toUtf8.length by omega]
      exact (reads_take text.toUtf8).map

/-- Bytes behind a 32-bit length, null included. -/
theorem reads_readBytes {value : Option Bytes} (h : ∀ bytes ∈ value, bytes.length < 2 ^ 31) :
    Reads Decoder.readBytes (sizedBytes value) value := by
  cases value with
  | none =>
      rw [sizedBytes, ← List.append_nil (intBytes 4 (-1))]
      refine (@reads_readInt 4 (-1) (by decide) (by decide)).bind ?_
      rw [Decoder.readBytesOf, if_pos rfl]
      exact Reads.pure none
  | some bytes =>
      have hlength := h bytes rfl
      refine (@reads_readInt 4 bytes.length (by omega) (by omega)).bind ?_
      rw [Decoder.readBytesOf, if_neg (by omega)]
      exact (reads_take bytes).map

/-- The bytes that `readUVarIntBytes` returns: the next byte comes along. -/
def withNext (value : Option Bytes) (after : Bytes) : Option Bytes :=
  value.map fun bytes => bytes ++ after.take 1

/-- Compact bytes are read with the byte that follows them, and left where they end. -/
theorem readsAt_readUVarIntBytes {value : Option Bytes}
    (h : ∀ bytes ∈ value, bytes.length + 1 < 2 ^ 32) (after : Bytes) :
    ReadsAt Decoder.readUVarIntBytes (compactBytes value) after (withNext value after) := by
  cases value with
  | none =>
      rw [compactBytes, ← List.append_nil (uVarIntBytes 0#32)]
      refine ReadsAt.bind (reads_readUVarInt_zero.readsAt _) ?_
      rw [if_pos rfl]
      exact (Reads.pure none).readsAt after
  | some bytes =>
      refine ReadsAt.bind ((reads_compactLength (h bytes rfl)).readsAt _) ?_
      rw [if_neg (by omega)]
      intro before
      have hslice := slice_take before (bytes ++ after) (bytes.length + 1)
      have htake : (bytes ++ after).take (bytes.length + 1) = bytes ++ after.take 1 :=
        List.take_length_add_append 1
      show Except.ok (some (slice _ _ _), (⟨_, _⟩ : Decoder)) = _
      rw [hslice, htake]
      refine congrArg Except.ok (Prod.ext rfl ?_)
      show (⟨_, (before.length : Int) + (((bytes.length + 1 : Nat) : Int) - 1)⟩ : Decoder) = _
      congr 1
      omega

/-- The elements that a reader finds one after the other, where `after` follows the last. -/
def seenEach {α β : Type} (seen : α → Bytes → β) (bytesOf : α → Bytes) : List α → Bytes → List β
  | [], _ => []
  | item :: items, after =>
      seen item (items.flatMap bytesOf ++ after) :: seenEach seen bytesOf items after

/-- Many items are read, each by what comes after it. -/
theorem readsAt_readMany {α β : Type} {reader : Reader β} {items : List α} {bytesOf : α → Bytes}
    {seen : α → Bytes → β}
    (h : ∀ item ∈ items, ∀ after, ReadsAt reader (bytesOf item) after (seen item after)) :
    ReadsAt (Decoder.readMany reader items.length) (items.flatMap bytesOf) after
      (seenEach seen bytesOf items after) := by
  induction items with
  | nil => exact (Reads.pure []).readsAt after
  | cons item items ih =>
      have hrest := ih fun other hother => h other (List.mem_cons_of_mem item hother)
      exact ReadsAt.bind (h item List.mem_cons_self _) hrest.map

end Readers

/-! ## UUIDs -/

/-- A hexadecimal digit in lower case. -/
def lowerCase (unit : UInt16) : UInt16 :=
  if 65 ≤ unit.toNat ∧ unit.toNat < 71 then UInt16.ofNat (unit.toNat + 32) else unit

/-- The text of a UUID: 32 hexadecimal digits, in either case, in groups of 8, 4, 4, 4 and 12. -/
def IsUuid (value : Text) : Prop :=
  (undashed value).length = 32 ∧ (∀ unit ∈ undashed value, (hexDigit unit).isSome) ∧
    value = dashed (undashed value)

/-- `IsUuid` is decidable by looking at the text. -/
instance (value : Text) : Decidable (IsUuid value) :=
  have := List.decidableBAll (fun unit => (hexDigit unit).isSome = true) (undashed value)
  inferInstanceAs (Decidable (_ ∧ _))

/-- The UUID that a text stands for, as it is read: in lower case, and the nil UUID as null. -/
def uuidValue (value : Text) : Option Text :=
  if (undashed value).map lowerCase = List.replicate 32 48 then none
  else some (dashed ((undashed value).map lowerCase))

/-- A hexadecimal digit is printed in lower case. -/
theorem hexUnit_of_hexDigit {unit : UInt16} {digit : Nat} (h : hexDigit unit = some digit) :
    hexUnit digit = lowerCase unit ∧ digit < 16 := by
  have heq : ∀ {n : Nat}, n < 2 ^ 16 → n = unit.toNat → UInt16.ofNat n = unit := fun hn hunit => by
    rw [← UInt16.toNat_inj, Text.toNat_ofNat_unit hn, hunit]
  rw [hexDigit] at h
  rw [hexUnit, lowerCase]
  split at h
  · cases h
    rw [if_pos (by omega), if_neg (by omega)]
    exact ⟨heq (by omega) (by omega), by omega⟩
  · split at h
    · cases h
      rw [if_neg (by omega), if_neg (by omega)]
      exact ⟨heq (by omega) (by omega), by omega⟩
    · split at h
      · cases h
        rw [if_neg (by omega), if_pos (by omega)]
        exact ⟨congrArg UInt16.ofNat (by omega), by omega⟩
      · cases h

/-- Digits decoded and encoded come back in lower case. -/
theorem toHex_ofHex {hex : Text} {count : Nat} (hlength : hex.length = 2 * count)
    (hdigits : ∀ unit ∈ hex, (hexDigit unit).isSome) :
    toHex (ofHex hex) = hex.map lowerCase ∧ (ofHex hex).length = count := by
  induction count generalizing hex with
  | zero =>
      rw [List.eq_nil_of_length_eq_zero hlength]
      exact ⟨rfl, rfl⟩
  | succ count ih =>
      match hex, hlength with
      | [_], hlength => simp only [List.length_singleton] at hlength; omega
      | high :: low :: rest, hlength =>
          obtain ⟨h, hhigh⟩ := Option.isSome_iff_exists.mp (hdigits high (by simp))
          obtain ⟨l, hlow⟩ := Option.isSome_iff_exists.mp (hdigits low (by simp))
          obtain ⟨hhighUnit, hhighLt⟩ := hexUnit_of_hexDigit hhigh
          obtain ⟨hlowUnit, hlowLt⟩ := hexUnit_of_hexDigit hlow
          obtain ⟨hrest, hcount⟩ := @ih rest (by simp only [List.length_cons] at hlength; omega)
            fun unit hunit => hdigits unit (by simp [hunit])
          have hbyte : (UInt8.ofNat (h * 16 + l)).toNat = h * 16 + l :=
            Text.toNat_ofNat_byte (by omega)
          have hcons : ofHex (high :: low :: rest) = UInt8.ofNat (h * 16 + l) :: ofHex rest := by
            rw [ofHex, hhigh, hlow]
          refine ⟨?_, by rw [hcons, List.length_cons, hcount]⟩
          rw [hcons, toHex, List.flatMap_cons, hbyte, show (h * 16 + l) / 16 = h by omega,
            show (h * 16 + l) % 16 = l by omega, hhighUnit, hlowUnit, List.map_cons, List.map_cons,
            ← hrest]
          rfl

/-- The bytes of a UUID; null is the nil UUID. -/
def uuidBytes (value : Option Text) : Bytes :=
  match value with
  | none => List.replicate 16 0
  | some value => (ofHex (undashed value)).take 16

/-- A UUID has 16 bytes. -/
theorem length_uuidBytes {value : Option Text} (h : ∀ text ∈ value, IsUuid text) :
    (uuidBytes value).length = 16 := by
  cases value with
  | none => rfl
  | some text =>
      obtain ⟨hlength, hdigits, -⟩ := h text rfl
      have hbytes := (@toHex_ofHex _ 16 hlength hdigits).2
      rw [uuidBytes, List.length_take]
      omega

/-- A UUID is written in its 16 bytes. -/
theorem writes_writeUUID {value : Option Text} (h : ∀ text ∈ value, IsUuid text) :
    Writes (Encoder.writeUUID value) (uuidBytes value) := by
  have hlength := length_uuidBytes h
  have hwrites : Writes (fun encoder => encoder.ensureAvailable (uuidBytes value).length >>=
      fun encoder => Pure.pure (⟨copyInto encoder.buf encoder.offset (uuidBytes value),
        encoder.offset + 16⟩ : Encoder)) (uuidBytes value) := by
    refine Writes.of_room fun encoder data hholds hroom => ⟨_, rfl, ?_, (length_copyInto _ _ _).ge⟩
    have hput := hholds.put hroom
    rwa [hlength] at hput
  rw [hlength] at hwrites
  exact hwrites

/-- A UUID reads back in lower case, the nil UUID as null. -/
theorem reads_readUUID {value : Option Text} (h : ∀ text ∈ value, IsUuid text) :
    Reads Decoder.readUUID (uuidBytes value) (value.bind uuidValue) := by
  rw [← List.append_nil (uuidBytes value)]
  have htake := reads_take (uuidBytes value)
  rw [length_uuidBytes h] at htake
  refine Reads.bind htake ?_
  cases value with
  | none =>
      show Reads (if toHex (List.replicate 16 0) = List.replicate 32 48 then _ else _) [] none
      rw [if_pos (by decide)]
      exact Reads.pure none
  | some text =>
      obtain ⟨hlength, hdigits, -⟩ := h text rfl
      obtain ⟨hhex, hcount⟩ := @toHex_ofHex _ 16 hlength hdigits
      have hall : (ofHex (undashed text)).take 16 = ofHex (undashed text) :=
        List.take_of_length_le hcount.le
      rw [uuidBytes, hall, hhex, Option.bind_some, uuidValue]
      dsimp only
      split
      · exact Reads.pure none
      · exact Reads.pure _

end KafkaJs.Protocol
