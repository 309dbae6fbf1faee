import KafkaJs.Protocol.Primitives
import KafkaJs.Protocol.VarIntForms

/-!
# The grammar of flexible messages

The primitives of the compact notation, as parsers over the bytes that are left: unsigned varints,
compact strings and arrays, fixed width integers and tag buffers. A parser fails where the bytes
end early. `Parses` says that a parser takes given bytes for a value, whatever follows them.
-/

namespace KafkaJs.Protocol

open Data

/-- A parser takes bytes from the front of those that are left. -/
abbrev Grammar (α : Type) := StateT Bytes Option α

namespace Grammar

/-- The groups of a varint up to the first without the top bit. -/
def varIntOf : Bytes → Option (Nat × Bytes)
  | [] => none
  | byte :: bytes =>
      if byte.toNat < 128 then some (byte.toNat, bytes)
      else (varIntOf bytes).map fun (value, rest) => (byte.toNat % 128 + 128 * value, rest)

/-- UNSIGNED_VARINT. -/
def unsignedVarInt : Grammar Nat := varIntOf

/-- Nothing is accepted. -/
def reject {α : Type} : Grammar α := fun _ => none

/-- A number of bytes. -/
def octets (count : Nat) : Grammar Bytes := fun bytes =>
  if bytes.length < count then none else some (bytes.take count, bytes.drop count)

/-- INT32. -/
def int32 : Grammar Int := do
  let bytes ← octets 4
  pure ((ofBigEndian bytes : Int).bmod (256 ^ 4))

/-- COMPACT_STRING: the length plus one, then the characters. Zero stands for null, which is not a
string. -/
def compactString : Grammar Text := do
  let length ← unsignedVarInt
  if length = 0 then reject
  else do
    let bytes ← octets (length - 1)
    pure (Text.ofUtf8 bytes)

/-- A number of elements. -/
def repeated {α : Type} (element : Grammar α) : Nat → Grammar (List α)
  | 0 => pure []
  | count + 1 => do
      let first ← element
      let others ← repeated element count
      pure (first :: others)

/-- COMPACT_ARRAY: the length plus one, then the elements; zero stands for null. -/
def compactArray {α : Type} (element : Grammar α) : Grammar (Option (List α)) := do
  let length ← unsignedVarInt
  if length = 0 then pure none
  else some <$> repeated element (length - 1)

/-- A tagged field: its tag, its size and as many bytes. -/
def taggedField : Grammar Unit := do
  let _tag ← unsignedVarInt
  let size ← unsignedVarInt
  let _data ← octets size
  pure ()

/-- TAG_BUFFER. -/
def tagBuffer : Grammar Unit := do
  let fields ← unsignedVarInt
  let _fields ← repeated taggedField fields
  pure ()

end Grammar

/-- The parser takes the bytes for the value, whatever follows them. -/
def Parses {α : Type} (grammar : Grammar α) (bytes : Bytes) (value : α) : Prop :=
  ∀ rest, grammar (bytes ++ rest) = some (value, rest)

section Parsing

variable {α β : Type} {first : Grammar α} {next : α → Grammar β} {value : α} {result : β}
  {head tail bytes rest : Bytes}

/-- Two parsers, one after the other, take the bytes of both. -/
theorem Parses.bind (hfirst : Parses first head value) (hnext : Parses (next value) tail result) :
    Parses (first >>= next) (head ++ tail) result := by
  intro rest
  show (first (head ++ tail ++ rest) >>= fun pair => next pair.1 pair.2) = _
  rw [List.append_assoc, hfirst]
  exact hnext rest

/-- Nothing is read for a value that is there already. -/
theorem Parses.pure (value : α) : Parses (Pure.pure value) [] value := fun _ => rfl

/-- What is read may be mapped. -/
theorem Parses.map (h : Parses first bytes value) (f : α → β) :
    Parses (first >>= fun value => Pure.pure (f value)) bytes (f value) := by
  intro rest
  show (first (bytes ++ rest) >>= fun pair => some (f pair.1, pair.2)) = _
  rw [h]
  rfl

/-- Behind bytes that are taken for a value the parser goes on. -/
theorem Parses.bind_eq (hfirst : Parses first head value) :
    (first >>= next) (head ++ rest) = next value rest := by
  show (first (head ++ rest) >>= fun pair => next pair.1 pair.2) = _
  rw [hfirst]
  rfl

/-- A sequence of two parsers has succeeded if both have. -/
theorem grammar_bind_eq_some :
    (first >>= next) bytes = some (result, rest) ↔
      ∃ value middle, first bytes = some (value, middle) ∧
        next value middle = some (result, rest) := by
  show (first bytes >>= fun pair => next pair.1 pair.2) = _ ↔ _
  cases first bytes with
  | none => simp
  | some pair =>
      obtain ⟨value, middle⟩ := pair
      simp

end Parsing

namespace Grammar

/-- A terminated group of varint bytes parses to its digits' value. -/
theorem parses_terminated {bytes : Bytes} (h : Terminated bytes) :
    Parses unsignedVarInt bytes (ofDigits bytes) := by
  induction h with
  | @last byte hbyte =>
      intro rest
      show varIntOf (byte :: rest) = _
      rw [varIntOf, if_pos hbyte, ofDigits, ofDigits, Nat.mod_eq_of_lt hbyte]
      rfl
  | @more byte bytes hbyte _ ih =>
      intro rest
      have hmore : varIntOf (bytes ++ rest) = some (ofDigits bytes, rest) := ih rest
      show varIntOf (byte :: (bytes ++ rest)) = _
      rw [varIntOf, if_neg (by omega), hmore, ofDigits]
      rfl

/-- An unsigned varint is parsed as the word that was written. -/
theorem parses_uVarIntBytes (word : BitVec 32) :
    Parses unsignedVarInt (uVarIntBytes word) word.toNat := by
  have hform := @shortestForm_groups word.toNat word.toNat le_rfl
  have hparses := parses_terminated hform.terminated
  rw [hform.value] at hparses
  rw [uVarIntBytes, uVarIntLoop_eq]
  exact hparses

/-- A length plus one, of fewer than 32 bits. -/
theorem parses_length {length : Nat} (h : length + 1 < 2 ^ 32) :
    Parses unsignedVarInt (uVarIntBytes (BitVec.ofInt 32 (length + 1))) (length + 1) := by
  have hparses := parses_uVarIntBytes (BitVec.ofInt 32 (length + 1))
  have hword : (BitVec.ofInt 32 ((length : Int) + 1)).toNat = length + 1 := by
    rw [BitVec.toNat_ofInt]
    omega
  rwa [hword] at hparses

/-- Any bytes parse as that many octets. -/
theorem parses_octets (bytes : Bytes) : Parses (octets bytes.length) bytes bytes := by
  intro rest
  rw [octets, if_neg (by simp), List.take_left, List.drop_left]

/-- The four bytes of an integer denote it in two's complement. -/
theorem bmod_intBytes {value : Int} (h : FitsInt 4 value) :
    (ofBigEndian (intBytes 4 value) : Int).bmod (256 ^ 4) = value :=
  @bmod_ofBigEndian 4 value (by have := h.1; norm_num at this ⊢; omega)
    (by have := h.2; norm_num at this ⊢; omega)

/-- A compact string is parsed as its well-formed text. -/
theorem parses_compactString {text : Text} (h : text.toUtf8.length + 1 < 2 ^ 32) :
    Parses compactString (compactBytes (some text.toUtf8)) text.toWellFormed := by
  refine (parses_length h).bind ?_
  rw [if_neg (Nat.succ_ne_zero _), Nat.add_sub_cancel, ← Text.ofUtf8_toUtf8]
  exact (parses_octets text.toUtf8).map Text.ofUtf8

/-- Elements that parse one by one parse as a sequence. -/
theorem parses_repeated {α : Type} {element : Grammar α} {encoding : α → Bytes} {values : List α}
    (h : ∀ value ∈ values, Parses element (encoding value) value) :
    Parses (repeated element values.length) (values.flatMap encoding) values := by
  induction values with
  | nil => exact Parses.pure []
  | cons value values ih =>
      have hvalues := ih fun other hmem => h other (List.mem_cons_of_mem _ hmem)
      exact (h value List.mem_cons_self).bind (hvalues.map (value :: ·))

/-- An array with its elements in sequence behind the length plus one. -/
theorem parses_compactArray {α : Type} {element : Grammar α} {encoding : α → Bytes}
    {values : List α} (hlength : values.length + 1 < 2 ^ 32)
    (h : ∀ value ∈ values, Parses element (encoding value) value) :
    Parses (compactArray element)
      (uVarIntBytes (BitVec.ofInt 32 (values.length + 1)) ++ values.flatMap encoding)
      (some values) := by
  refine (parses_length hlength).bind ?_
  rw [if_neg (Nat.succ_ne_zero _), Nat.add_sub_cancel, map_eq_pure_bind]
  exact (parses_repeated h).map some

/-- Behind its length an array is its elements. -/
theorem compactArray_eq_some {α : Type} {element : Grammar α} {count : Nat}
    (hcount : count + 1 < 2 ^ 32) {value : Option (List α)} {bytes rest : Bytes}
    (h : compactArray element (uVarIntBytes (BitVec.ofInt 32 (count + 1)) ++ bytes) =
      some (value, rest)) :
    ∃ values, value = some values ∧ repeated element count bytes = some (values, rest) := by
  rw [compactArray, (parses_length hcount).bind_eq, if_neg (Nat.succ_ne_zero _),
    Nat.add_sub_cancel, map_eq_pure_bind] at h
  obtain ⟨values, _, hvalues, hpure⟩ := grammar_bind_eq_some.mp h
  obtain ⟨rfl, rfl⟩ := Prod.mk.inj (Option.some.inj hpure)
  exact ⟨values, rfl, hvalues⟩

/-- A zero where a string should start is the length of null. -/
theorem compactString_zero (bytes : Bytes) : compactString (0 :: bytes) = none := rfl

/-- The byte zero is an empty tag buffer. -/
theorem parses_tagBuffer : Parses tagBuffer [0] () := fun _ => rfl

/-- An integer is only read from its own bytes. -/
theorem int32_eq_some {value : Int} (h : FitsInt 4 value) {bytes rest : Bytes}
    (hread : int32 bytes = some (value, rest)) : bytes = intBytes 4 value ++ rest := by
  obtain ⟨taken, middle, hoctets, hpure⟩ := grammar_bind_eq_some.mp hread
  have hpair : ((ofBigEndian taken : Int).bmod (256 ^ 4), middle) = (value, rest) :=
    Option.some.inj hpure
  obtain ⟨hvalue, rfl⟩ := Prod.mk.inj hpair
  rw [octets] at hoctets
  split at hoctets
  · cases hoctets
  · cases hoctets
    have htaken := bmod_ofBigEndian_injective (by rw [List.length_take]; omega)
      (length_intBytes 4 _) (hvalue.trans (bmod_intBytes h).symm)
    rw [← htaken, List.take_append_drop]

end Grammar

end KafkaJs.Protocol
