import KafkaJs.Protocol.PrimitiveReaders
import Mathlib.Data.Set.List

/-!
# Tagged fields

The tag buffers of flexible versions: a number of fields, each with its tag, its length and as many
bytes. `Decoder.readTaggedFields` reads a field with the reader of compact bytes, whose length
counts one more than there are bytes, so it stops one byte before the end of every field that has
bytes and takes that byte for the beginning of what follows.

`skipped_iff` says which tag buffers are skipped all the same: those whose bytes are also as many
fields behind compact lengths. Empty fields are (`readable_of_empty`), a single field with bytes is
not (`not_readable_single`).
-/

namespace KafkaJs.Protocol

open KafkaJs.Data

/-- A reader passes over given bytes if it succeeds in every context and stops behind them. -/
def Passes {α : Type} (reader : Reader α) (bytes : Bytes) : Prop :=
  ∀ before after : Bytes, ∃ value,
    reader ⟨before ++ (bytes ++ after), before.length⟩ =
      .ok (value, ⟨before ++ (bytes ++ after), before.length + bytes.length⟩)

namespace Decoder

/-- A tagged field, as `readTaggedFields` reads it. -/
def readTaggedField : Reader (Option Bytes) := do
  let _ ← readUVarInt
  readUVarIntBytes

/-- `readTaggedFields`: null, or an object that stays empty. -/
def readTaggedFields : Reader (Option Unit) := do
  let numberOfTaggedFields ← readUVarInt
  if numberOfTaggedFields = 0 then pure none
  else
    let _ ← readMany readTaggedField numberOfTaggedFields
    pure (some ())

end Decoder

/-! ## Unsigned varints -/

/-- The top bit is set on every byte but the last. -/
inductive Terminated : Bytes → Prop where
  | last {byte : UInt8} (h : byte.toNat < 128) : Terminated [byte]
  | more {byte : UInt8} {bytes : Bytes} (h : 128 ≤ byte.toNat) (hrest : Terminated bytes) :
      Terminated (byte :: bytes)

/-- The number with the low seven bits of the bytes as its digits, the lowest first. -/
def ofDigits : Bytes → Nat
  | [] => 0
  | byte :: bytes => byte.toNat % 128 + 128 * ofDigits bytes

/-- The bytes of an unsigned varint, in the shortest form or a longer one. -/
structure UVarInt where
  bytes : Bytes
  terminated : Terminated bytes
  short : bytes.length ≤ 5

/-- The value, of 32 bits. -/
def UVarInt.value (varInt : UVarInt) : Nat := ofDigits varInt.bytes % 2 ^ 32

/-- Terminated bytes are not empty. -/
theorem Terminated.length_pos {bytes : Bytes} (h : Terminated bytes) : 0 < bytes.length := by
  cases h with
  | last => exact Nat.one_pos
  | more => exact Nat.succ_pos _

/-- Digits above the bits read so far are added by `|`, up to the width of the word. -/
theorem or_digits {result : BitVec 32} {i : Nat} (hresult : result.toNat < 2 ^ i) (hi : i ≤ 32)
    (m : Nat) :
    result ||| BitVec.ofNat 32 m <<< i = result + BitVec.ofNat 32 (m * 2 ^ i) := by
  have hpow : 2 ^ 32 = 2 ^ i * 2 ^ (32 - i) := by
    rw [← Nat.pow_add]
    congr 1
    omega
  have hshift : (BitVec.ofNat 32 m <<< i).toNat = 2 ^ i * (m % 2 ^ (32 - i)) := by
    rw [BitVec.toNat_shiftLeft, BitVec.toNat_ofNat, Nat.shiftLeft_eq, Nat.mod_mul_mod,
      Nat.mul_comm m, hpow, Nat.mul_mod_mul_left]
  have hnumber : (BitVec.ofNat 32 (m * 2 ^ i)).toNat = 2 ^ i * (m % 2 ^ (32 - i)) := by
    rw [BitVec.toNat_ofNat, Nat.mul_comm m, hpow, Nat.mul_mod_mul_left]
  have hlt : m % 2 ^ (32 - i) < 2 ^ (32 - i) := Nat.mod_lt _ (Nat.two_pow_pos _)
  have hroom : 2 ^ i * (m % 2 ^ (32 - i)) + 2 ^ i ≤ 2 ^ 32 := by
    rw [hpow, ← Nat.mul_succ]
    exact Nat.mul_le_mul_left _ hlt
  have hsum : result.toNat + 2 ^ i * (m % 2 ^ (32 - i)) < 2 ^ 32 := by omega
  apply BitVec.eq_of_toNat_eq
  rw [BitVec.toNat_or, hshift, Nat.or_comm, ← Nat.two_pow_add_eq_or_of_lt hresult,
    BitVec.toNat_add, hnumber, Nat.mod_eq_of_lt hsum, Nat.add_comm]

/-- `readUVarInt` on the bytes of a varint. -/
theorem readUVarIntLoop_terminated {bytes : Bytes} (h : Terminated bytes) (rest : Bytes) {k : Nat}
    {result : BitVec 32} (hresult : result.toNat < 2 ^ (7 * k)) (hk : k + bytes.length ≤ 5) :
    readUVarIntLoop (bytes ++ rest) (7 * k) result =
      some (result + BitVec.ofNat 32 (ofDigits bytes * 2 ^ (7 * k)), bytes.length) := by
  induction h generalizing k result with
  | @last byte hbyte =>
      simp only [List.length_singleton] at hk
      have hdigit : ofDigits [byte] = byte.toNat := by
        show byte.toNat % 128 + 128 * 0 = byte.toNat
        omega
      rw [List.singleton_append, readUVarIntLoop, if_neg (by omega), hdigit,
        or_digits hresult (by omega)]
      rfl
  | @more byte bytes hbyte hrest ih =>
      have hpos := hrest.length_pos
      rw [List.length_cons] at hk
      have hpow : 2 ^ (7 * (k + 1)) = 128 * 2 ^ (7 * k) := by
        rw [show 7 * (k + 1) = 7 + 7 * k by omega, Nat.pow_add]
      have hstep := or_digits hresult (by omega) (byte.toNat % 128)
      -- the next group goes above the bits that are there
      have hbound : (result ||| BitVec.ofNat 32 (byte.toNat % 128) <<< (7 * k)).toNat <
          2 ^ (7 * (k + 1)) := by
        rw [hstep, BitVec.toNat_add, BitVec.toNat_ofNat]
        have hdigit : byte.toNat % 128 * 2 ^ (7 * k) ≤ 127 * 2 ^ (7 * k) :=
          Nat.mul_le_mul_right _ (by omega)
        have hsum := Nat.mod_le (result.toNat + byte.toNat % 128 * 2 ^ (7 * k) % 2 ^ 32) (2 ^ 32)
        have hterm := Nat.mod_le (byte.toNat % 128 * 2 ^ (7 * k)) (2 ^ 32)
        omega
      rw [List.cons_append, readUVarIntLoop, if_pos (by omega), if_neg (by omega),
        show 7 * k + 7 = 7 * (k + 1) by omega, ih hbound (by omega), hstep, BitVec.add_assoc,
        ← BitVec.ofNat_add]
      have hdigits : byte.toNat % 128 * 2 ^ (7 * k) + ofDigits bytes * 2 ^ (7 * (k + 1)) =
          ofDigits (byte :: bytes) * 2 ^ (7 * k) := by
        rw [hpow, ofDigits]
        ring
      rw [hdigits]
      rfl

/-- What `readUVarInt` has read within a buffer are the bytes of a varint. -/
theorem terminated_of_readUVarIntLoop {rest : Bytes} {k count : Nat} {result value : BitVec 32}
    (hread : readUVarIntLoop rest (7 * k) result = some (value, count)) (hk : k ≤ 4)
    (hcount : count ≤ rest.length) :
    Terminated (rest.take count) ∧ k + count ≤ 5 := by
  induction rest generalizing k count result with
  | nil =>
      cases hread
      cases hcount
  | cons byte rest ih =>
      rw [readUVarIntLoop] at hread
      by_cases hbyte : byte.toNat ≥ 0x80
      · rw [if_pos hbyte] at hread
        by_cases hlong : 7 * k + 7 > 28
        · rw [if_pos hlong] at hread
          cases hread
        · rw [if_neg hlong, show 7 * k + 7 = 7 * (k + 1) by omega] at hread
          obtain ⟨⟨_, more⟩, hmore, hpair⟩ := Option.map_eq_some_iff.mp hread
          cases hpair
          rw [List.length_cons] at hcount
          obtain ⟨hterminated, hshort⟩ := ih hmore (by omega) (by omega)
          exact ⟨.more hbyte hterminated, by omega⟩
      · rw [if_neg hbyte] at hread
        cases hread
        exact ⟨.last (by omega), by omega⟩

/-- A varint of any form is read whatever follows it. -/
theorem readUVarIntFrom_uVarInt (varInt : UVarInt) (rest : Bytes) :
    readUVarIntFrom (varInt.bytes ++ rest) = some (varInt.value, varInt.bytes.length) := by
  have hzero : (0#32).toNat < 2 ^ (7 * 0) := by decide
  have hloop := readUVarIntLoop_terminated varInt.terminated rest hzero
    (by have := varInt.short; omega)
  rw [Nat.mul_zero] at hloop
  rw [readUVarIntFrom, hloop]
  simp [UVarInt.value]

/-- A varint of any form is read. -/
theorem reads_uVarInt (varInt : UVarInt) :
    Reads Decoder.readUVarInt varInt.bytes varInt.value := by
  intro before after
  rw [Decoder.readUVarInt, remaining_append, readUVarIntFrom_uVarInt]

/-! ## Fields -/

/-- A field of a tag buffer: its tag, its length and its bytes, of which there are as many as the
length stands for. -/
structure TaggedField (sizeOf : Nat → Nat) where
  tag : UVarInt
  length : UVarInt
  data : Bytes
  sized : data.length = sizeOf length.value

namespace TaggedField

variable {sizeOf : Nat → Nat}

/-- The bytes of the field. -/
def bytes (field : TaggedField sizeOf) : Bytes :=
  field.tag.bytes ++ (field.length.bytes ++ field.data)

end TaggedField

/-- Lengths in a tag buffer: the number of bytes. -/
def plainLength (length : Nat) : Nat := length

/-- Compact lengths: one more than the number of bytes, zero for null. -/
def compactLength (length : Nat) : Nat := length - 1

/-- A tag buffer. -/
structure TagBuffer where
  count : UVarInt
  fields : List (TaggedField plainLength)
  counted : fields.length = count.value

/-- The bytes of the fields. -/
def TagBuffer.body (buffer : TagBuffer) : Bytes := buffer.fields.flatMap TaggedField.bytes

/-- The bytes of the tag buffer. -/
def TagBuffer.bytes (buffer : TagBuffer) : Bytes := buffer.count.bytes ++ buffer.body

/-- The decoder is left at the first byte after the buffer, whatever stands around it. -/
def TagBuffer.Skipped (buffer : TagBuffer) : Prop := Passes Decoder.readTaggedFields buffer.bytes

/-- The bytes of the fields are also those of as many fields behind compact lengths. -/
def TagBuffer.Readable (buffer : TagBuffer) : Prop :=
  ∃ fields : List (TaggedField compactLength),
    fields.length = buffer.fields.length ∧ fields.flatMap TaggedField.bytes = buffer.body

/-! ## Passing over fields -/

section Passes

variable {α β : Type} {reader : Reader α} {bytes head tail : Bytes} {value : α}

/-- A reader that reads bytes passes over them. -/
theorem Reads.passes (h : Reads reader bytes value) : Passes reader bytes :=
  fun before after => ⟨value, h before after⟩

/-- A reader that reads and then one that passes. -/
theorem Reads.bind_passes {next : α → Reader β} (hfirst : Reads reader head value)
    (hsecond : Passes (next value) tail) : Passes (reader >>= next) (head ++ tail) := by
  intro before after
  obtain ⟨result, hrest⟩ := hsecond (before ++ head) after
  exact ⟨result, read_bind (hfirst before (tail ++ after)) hrest⟩

/-- A reader that passes and then another. -/
theorem Passes.bind {next : α → Reader β} (hfirst : Passes reader head)
    (hsecond : ∀ value, Passes (next value) tail) : Passes (reader >>= next) (head ++ tail) := by
  intro before after
  obtain ⟨value, hstart⟩ := hfirst before (tail ++ after)
  obtain ⟨result, hrest⟩ := hsecond value (before ++ head) after
  exact ⟨result, read_bind hstart hrest⟩

/-- Many readers pass over the bytes of all items. -/
theorem passes_readMany {ι : Type} {items : List ι} {bytesOf : ι → Bytes}
    (h : ∀ item ∈ items, Passes reader (bytesOf item)) :
    Passes (Decoder.readMany reader items.length) (items.flatMap bytesOf) := by
  induction items with
  | nil => exact (Reads.pure []).passes
  | cons item items ih =>
      have hrest := ih fun other hother => h other (List.mem_cons_of_mem item hother)
      rw [List.flatMap_cons]
      refine (h item List.mem_cons_self).bind fun value => ?_
      rw [← List.append_nil (items.flatMap bytesOf)]
      exact hrest.bind fun values => (Reads.pure (value :: values)).passes

end Passes

/-- The bytes behind a compact length are passed over. -/
theorem passes_readUVarIntBytes {length : UVarInt} {data : Bytes}
    (h : data.length = compactLength length.value) :
    Passes Decoder.readUVarIntBytes (length.bytes ++ data) := by
  refine (reads_uVarInt length).bind_passes ?_
  unfold compactLength at h
  by_cases hzero : length.value = 0
  · have hdata : data = [] := List.eq_nil_of_length_eq_zero (by omega)
    rw [if_pos hzero, hdata]
    exact (Reads.pure none).passes
  · rw [if_neg hzero]
    intro before after
    refine ⟨_, congrArg Except.ok (Prod.ext rfl ?_)⟩
    show (⟨_, (before.length : Int) + ((length.value : Int) - 1)⟩ : Decoder) = _
    congr 1
    omega

/-- A tagged field behind a compact length is passed over. -/
theorem passes_readTaggedField (field : TaggedField compactLength) :
    Passes Decoder.readTaggedField field.bytes :=
  (reads_uVarInt field.tag).bind_passes (passes_readUVarIntBytes field.sized)

/-! ## What a reader has read -/

/-- A reader only moves forward, and what it has read within the buffer is accepted. -/
structure Recognizes {α : Type} (reader : Reader α) (accepts : α → Bytes → Prop) : Prop where
  advances : ∀ (decoder next : Decoder) (value : α), reader decoder = .ok (value, next) →
    ∃ count : Nat, next = ⟨decoder.buffer, decoder.offset + count⟩
  accepted : ∀ (before rest : Bytes) (value : α) (count : Nat),
    reader ⟨before ++ rest, before.length⟩ =
      .ok (value, ⟨before ++ rest, before.length + count⟩) →
    count ≤ rest.length → accepts value (rest.take count)

namespace Recognizes

variable {α β : Type} {reader : Reader α} {accepts : α → Bytes → Prop}

/-- What a reader recognizes may be weakened. -/
theorem mono {weaker : α → Bytes → Prop} (h : Recognizes reader accepts)
    (hweaker : ∀ value bytes, accepts value bytes → weaker value bytes) :
    Recognizes reader weaker where
  advances := h.advances
  accepted before rest value count hread hcount :=
    hweaker _ _ (h.accepted before rest value count hread hcount)

/-- A reader that takes nothing recognizes its value in no bytes. -/
theorem pure (value : α) :
    Recognizes (Pure.pure value) fun result bytes => result = value ∧ bytes = [] where
  advances decoder next result hread := by
    cases hread
    exact ⟨0, by simp⟩
  accepted before rest result count hread hcount := by
    obtain ⟨hresult, hdecoder⟩ := Prod.mk.inj (Except.ok.inj hread)
    have hzero : count = 0 := by
      have hoffset : (before.length : Int) = before.length + count :=
        congrArg Decoder.offset hdecoder
      omega
    rw [hzero]
    exact ⟨hresult.symm, List.take_zero⟩

/-- Two readers, one after the other, have read what the first one accepts and then what the second
one does. -/
theorem bind {next : α → Reader β} {follows : α → β → Bytes → Prop}
    (hfirst : Recognizes reader accepts)
    (hsecond : ∀ value, Recognizes (next value) (follows value)) :
    Recognizes (reader >>= next) fun result bytes => ∃ value head tail,
      bytes = head ++ tail ∧ accepts value head ∧ follows value result tail where
  advances decoder last result hread := by
    obtain ⟨⟨value, middle⟩, hmiddle, hread⟩ := bind_eq_ok hread
    obtain ⟨first, rfl⟩ := hfirst.advances _ _ _ hmiddle
    obtain ⟨second, rfl⟩ := (hsecond value).advances _ _ _ hread
    exact ⟨first + second, by push_cast; rw [Int.add_assoc]⟩
  accepted before rest result count hread hcount := by
    obtain ⟨⟨value, middle⟩, hmiddle, hread⟩ := bind_eq_ok hread
    obtain ⟨first, rfl⟩ := hfirst.advances _ _ _ hmiddle
    obtain ⟨second, hlast⟩ := (hsecond value).advances _ _ _ hread
    have hsum : count = first + second := by
      have hoffset : (before.length : Int) + count = before.length + first + second :=
        congrArg Decoder.offset hlast
      omega
    subst hsum
    have hbuffer : before ++ rest = (before ++ rest.take first) ++ rest.drop first := by
      rw [List.append_assoc, List.take_append_drop]
    have hlength : (before ++ rest.take first).length = before.length + first := by
      rw [List.length_append, List.length_take]
      omega
    refine ⟨value, rest.take first, (rest.drop first).take second, List.take_add,
      hfirst.accepted before rest value first hmiddle (by omega), ?_⟩
    refine (hsecond value).accepted (before ++ rest.take first) (rest.drop first) result second ?_
      (by rw [List.length_drop]; omega)
    rw [← hbuffer, hlength]
    dsimp only at hread
    push_cast at hread ⊢
    rw [Int.add_assoc]
    exact hread

/-- A reader, any number of times. -/
theorem readMany (h : Recognizes reader accepts) (length : Nat) :
    Recognizes (Decoder.readMany reader length) fun _ bytes => ∃ parts : List Bytes,
      parts.length = length ∧ parts.flatten = bytes ∧
        ∀ part ∈ parts, ∃ value, accepts value part := by
  induction length with
  | zero =>
      refine (pure []).mono fun values bytes hbytes => ⟨[], rfl, hbytes.2.symm, ?_⟩
      exact List.forall_mem_nil _
  | succ length ih =>
      refine (h.bind fun value => ih.bind fun values => pure (value :: values)).mono ?_
      rintro values bytes ⟨value, head, tail, rfl, hhead, _, others, rest, rfl,
        ⟨parts, hlength, rfl, hparts⟩, _, rfl⟩
      refine ⟨head :: parts, ?_, ?_, List.forall_mem_cons.mpr ⟨⟨value, hhead⟩, hparts⟩⟩
      · rw [List.length_cons, hlength]
      · rw [List.flatten_cons, List.append_nil]

end Recognizes

/-- The reader of varints recognizes varints. -/
theorem recognizes_readUVarInt :
    Recognizes Decoder.readUVarInt fun value bytes =>
      ∃ varInt : UVarInt, varInt.bytes = bytes ∧ varInt.value = value where
  advances decoder next value hread := by
    rw [Decoder.readUVarInt] at hread
    cases hfrom : readUVarIntFrom decoder.remaining with
    | none =>
        rw [hfrom] at hread
        cases hread
    | some pair =>
        rw [hfrom] at hread
        cases hread
        exact ⟨pair.2, rfl⟩
  accepted before rest value count hread hcount := by
    have hremaining := @remaining_append before [] rest
    simp only [List.append_nil] at hremaining
    rw [Decoder.readUVarInt, hremaining] at hread
    cases hfrom : readUVarIntFrom rest with
    | none =>
        rw [hfrom] at hread
        cases hread
    | some pair =>
        obtain ⟨found, moved⟩ := pair
        rw [hfrom] at hread
        obtain ⟨rfl, hdecoder⟩ := Prod.mk.inj (Except.ok.inj hread)
        have hmoved : moved = count := by
          have hoffset : (before.length : Int) + moved = before.length + count :=
            congrArg Decoder.offset hdecoder
          omega
        subst hmoved
        obtain ⟨⟨word, length⟩, hloop, hpair⟩ := Option.map_eq_some_iff.mp hfrom
        cases hpair
        obtain ⟨hterminated, hshort⟩ :=
          terminated_of_readUVarIntLoop (k := 0) hloop (by omega) hcount
        have hlength : (rest.take moved).length = moved := List.length_take_of_le hcount
        let varInt : UVarInt := ⟨rest.take moved, hterminated, by omega⟩
        -- the bytes that were read over are a varint, and reading that gives its value
        have hagain := readUVarIntFrom_uVarInt varInt (rest.drop moved)
        rw [show varInt.bytes ++ rest.drop moved = rest from List.take_append_drop _ _, hfrom]
          at hagain
        exact ⟨varInt, rfl, (Prod.mk.inj (Option.some.inj hagain)).1.symm⟩

/-- The bytes that `readUVarIntBytes` has moved over, given their length. -/
theorem recognizes_compactData (length : Nat) :
    Recognizes (if length = 0 then pure none
      else do
        let decoder ← get
        let stringBuffer := slice decoder.buffer decoder.offset (decoder.offset + length)
        Decoder.forward ((length : Int) - 1)
        pure (some stringBuffer) : Reader (Option Bytes))
      fun _ bytes => bytes.length = compactLength length := by
  by_cases hzero : length = 0
  · rw [if_pos hzero]
    refine (Recognizes.pure none).mono fun value bytes hbytes => ?_
    rw [hbytes.2, hzero]
    rfl
  · rw [if_neg hzero]
    have hlength : ((length : Int) - 1) = (length - 1 : Nat) := by omega
    rw [hlength]
    refine ⟨fun decoder next value hread => ?_, fun before rest value count hread hcount => ?_⟩
    · cases hread
      exact ⟨length - 1, rfl⟩
    · have hdecoder := (Prod.mk.inj (Except.ok.inj hread)).2
      have hoffset : (before.length : Int) + (length - 1 : Nat) = before.length + count :=
        congrArg Decoder.offset hdecoder
      rw [List.length_take_of_le hcount, compactLength]
      omega

/-- What `readTaggedField` has read is a field behind a compact length. -/
theorem recognizes_readTaggedField :
    Recognizes Decoder.readTaggedField fun _ bytes =>
      ∃ field : TaggedField compactLength, field.bytes = bytes := by
  have hbytes := recognizes_readUVarInt.bind recognizes_compactData
  refine (recognizes_readUVarInt.bind fun _ => hbytes).mono ?_
  rintro value bytes ⟨_, head, tail, rfl, ⟨tag, rfl, _⟩, _, lengthBytes, data, rfl,
    ⟨length, rfl, rfl⟩, hdata⟩
  exact ⟨⟨tag, length, data, hdata⟩, rfl⟩

/-! ## Tag buffers -/

variable {buffer : TagBuffer}

/-- A readable tag buffer is skipped. -/
theorem TagBuffer.skipped_of_readable (h : buffer.Readable) : buffer.Skipped := by
  obtain ⟨fields, hlength, hbody⟩ := h
  refine (reads_uVarInt buffer.count).bind_passes ?_
  rw [← buffer.counted, ← hlength, ← hbody]
  by_cases hzero : fields.length = 0
  · rw [if_pos hzero, List.eq_nil_of_length_eq_zero hzero]
    exact (Reads.pure none).passes
  · rw [if_neg hzero, ← List.append_nil (fields.flatMap TaggedField.bytes)]
    exact (passes_readMany fun field _ => passes_readTaggedField field).bind
      fun _ => (Reads.pure (some ())).passes

/-- Bytes each of which are those of a field are the bytes of a list of fields. -/
theorem exists_fields {sizeOf : Nat → Nat} {parts : List Bytes}
    (h : ∀ part ∈ parts, ∃ field : TaggedField sizeOf, field.bytes = part) :
    ∃ fields : List (TaggedField sizeOf), fields.map TaggedField.bytes = parts := by
  have hrange : parts ∈ Set.range (List.map (@TaggedField.bytes sizeOf)) := by
    rw [Set.range_list_map]
    exact h
  exact hrange

/-- A tag buffer that is skipped is readable. -/
theorem TagBuffer.readable_of_skipped (h : buffer.Skipped) : buffer.Readable := by
  obtain ⟨value, hread⟩ := h [] []
  have hcount := reads_uVarInt buffer.count [] buffer.body
  simp only [List.nil_append, List.append_nil, List.length_nil, Nat.cast_zero, Int.zero_add]
    at hread hcount
  rw [TagBuffer.bytes, Decoder.readTaggedFields] at hread
  replace hread : (Decoder.readUVarInt ⟨buffer.count.bytes ++ buffer.body, 0⟩ >>= fun pair => _) =
    Except.ok _ := hread
  rw [hcount, ok_bind] at hread
  by_cases hzero : buffer.count.value = 0
  · have hcounted := buffer.counted
    rw [hzero] at hcounted
    exact ⟨[], hcounted.symm, by rw [TagBuffer.body, List.eq_nil_of_length_eq_zero hcounted]; rfl⟩
  · -- the loop over the fields has read all bytes behind the count
    have hloop : (Decoder.readMany Decoder.readTaggedField buffer.count.value >>=
        fun _ => (pure (some ()) : Reader (Option Unit)))
          ⟨buffer.count.bytes ++ buffer.body, buffer.count.bytes.length⟩ =
        .ok (value, ⟨buffer.count.bytes ++ buffer.body,
          buffer.count.bytes.length + buffer.body.length⟩) := by
      rw [if_neg hzero, List.length_append, Nat.cast_add] at hread
      exact hread
    have hrecognizes := (recognizes_readTaggedField.readMany buffer.count.value).bind
      fun _ => Recognizes.pure (some ())
    obtain ⟨_, head, tail, hbody, ⟨parts, hlength, hparts, hfields⟩, _, rfl⟩ :=
      hrecognizes.accepted _ _ _ _ hloop (Nat.le_refl _)
    rw [List.take_length, List.append_nil] at hbody
    obtain ⟨fields, rfl⟩ := exists_fields fun part hpart => (hfields part hpart).choose_spec
    refine ⟨fields, ?_, ?_⟩
    · rw [buffer.counted, ← hlength, List.length_map]
    · rw [List.flatMap_def, hparts, hbody]

/-- The decoder is left behind a tag buffer exactly if the bytes of its fields can also be read
behind compact lengths. -/
theorem TagBuffer.skipped_iff : buffer.Skipped ↔ buffer.Readable :=
  ⟨readable_of_skipped, skipped_of_readable⟩

/-- An empty tag buffer is read as null. -/
theorem reads_readTaggedFields : Reads Decoder.readTaggedFields (uVarIntBytes 0#32) none := by
  rw [← List.append_nil (uVarIntBytes 0#32)]
  refine reads_readUVarInt_zero.bind ?_
  rw [if_pos rfl]
  exact Reads.pure none

/-- What follows a tag buffer that is skipped is read as it stands. -/
theorem TagBuffer.Skipped.reads {α : Type} {rest : Reader α} {bytes : Bytes} {value : α}
    (h : buffer.Skipped) (hrest : Reads rest bytes value) :
    Reads (Decoder.readTaggedFields >>= fun _ => rest) (buffer.bytes ++ bytes) value := by
  intro before after
  obtain ⟨result, hstart⟩ := h before (bytes ++ after)
  have hend := hrest (before ++ buffer.bytes) after
  simp only [List.append_assoc, List.length_append, Nat.cast_add] at hstart hend ⊢
  show (Decoder.readTaggedFields _ >>= fun pair => rest pair.2) = _
  rw [hstart]
  show rest _ = _
  rw [hend, Int.add_assoc]

/-- Fields without bytes are the same behind either kind of length. -/
theorem TagBuffer.readable_of_empty (h : ∀ field ∈ buffer.fields, field.length.value = 0) :
    buffer.Readable := by
  have hparts : ∀ part ∈ buffer.fields.map TaggedField.bytes,
      ∃ field : TaggedField compactLength, field.bytes = part := by
    intro part hpart
    obtain ⟨field, hfield, rfl⟩ := List.mem_map.mp hpart
    have hsize := field.sized
    rw [plainLength, h field hfield] at hsize
    exact ⟨⟨field.tag, field.length, field.data, by rw [hsize, h field hfield]; rfl⟩, rfl⟩
  obtain ⟨fields, hfields⟩ := exists_fields hparts
  have hlength := congrArg List.length hfields
  rw [List.length_map, List.length_map] at hlength
  exact ⟨fields, hlength, by rw [List.flatMap_def, hfields, TagBuffer.body, List.flatMap_def]⟩

/-- Two varints at the beginning of the same bytes are the same. -/
theorem UVarInt.eq_of_append_eq {first second : UVarInt} {rest others : Bytes}
    (h : first.bytes ++ rest = second.bytes ++ others) :
    first.bytes = second.bytes ∧ first.value = second.value ∧ rest = others := by
  have hfirst := readUVarIntFrom_uVarInt first rest
  rw [h, readUVarIntFrom_uVarInt second others] at hfirst
  obtain ⟨hvalue, hlength⟩ := Prod.mk.inj (Option.some.inj hfirst)
  obtain ⟨hbytes, hrest⟩ := List.append_inj h hlength.symm
  exact ⟨hbytes, hvalue.symm, hrest⟩

/-- A single field that has bytes is not. -/
theorem TagBuffer.not_readable_single {field : TaggedField plainLength}
    (hfields : buffer.fields = [field]) (hlength : 0 < field.length.value) :
    ¬ buffer.Readable := by
  rintro ⟨fields, hcount, hbody⟩
  rw [hfields, List.length_singleton] at hcount
  obtain ⟨other, rfl⟩ := List.length_eq_one_iff.mp hcount
  rw [TagBuffer.body, hfields, List.flatMap_singleton, List.flatMap_singleton, TaggedField.bytes,
    TaggedField.bytes] at hbody
  obtain ⟨_, _, hrest⟩ := UVarInt.eq_of_append_eq hbody
  obtain ⟨_, hvalue, hdata⟩ := UVarInt.eq_of_append_eq hrest
  have hsize := other.sized
  rw [hdata, field.sized, hvalue, plainLength, compactLength] at hsize
  omega

/-- A varint of one byte. -/
def UVarInt.ofByte (byte : UInt8) (h : byte.toNat < 128) : UVarInt :=
  ⟨[byte], .last h, Nat.succ_le_succ (Nat.zero_le 4)⟩

/-- One field, with one byte. -/
def TagBuffer.sample : TagBuffer where
  count := .ofByte 1 (by decide)
  fields := [⟨.ofByte 0 (by decide), .ofByte 1 (by decide), [42], rfl⟩]
  counted := rfl

/-- The decoder is left at the byte of the field. -/
theorem TagBuffer.not_skipped_sample :
    Decoder.readTaggedFields ⟨TagBuffer.sample.bytes, 0⟩ =
      .ok (some (), ⟨TagBuffer.sample.bytes, 3⟩) ∧
    ¬ TagBuffer.sample.Skipped := by
  have hread : Decoder.readTaggedFields ⟨TagBuffer.sample.bytes, 0⟩ =
      .ok (some (), ⟨TagBuffer.sample.bytes, 3⟩) := rfl
  refine ⟨hread, fun h => ?_⟩
  obtain ⟨value, hskipped⟩ := h [] []
  rw [List.nil_append, List.append_nil] at hskipped
  have hsame := hread.symm.trans hskipped
  have hoffset := congrArg Decoder.offset (Prod.mk.inj (Except.ok.inj hsame)).2
  revert hoffset
  decide

end KafkaJs.Protocol
