import Mathlib.Data.List.Basic
import Mathlib.Tactic.NormNum

/-!
# Text as 16-bit code units, and UTF-8

Text is a list of 16-bit code units in which surrogates may stand alone. `scalars` reads it as
scalar values, each lone surrogate as the replacement character, and `toUtf8` encodes these.
`ofUtf8` is the decoder that replaces every maximal invalid part of its input by the replacement
character: it keeps the character it is in the middle of as a `Pending` state and starts afresh
at the byte that does not fit.

`ofUtf8_toUtf8` says that decoding an encoded text gives the well-formed text with the same
scalar values.
-/

namespace KafkaJs.Data

/-- A text: its 16-bit code units. -/
abbrev Text := List UInt16

/-- Raw bytes. -/
abbrev Bytes := List UInt8

namespace Text

/-- U+FFFD, the replacement character. -/
def replacement : Char := Char.ofNat 0xFFFD

/-- The first half of a surrogate pair. -/
def isHigh (unit : UInt16) : Bool := 0xD800 ≤ unit.toNat ∧ unit.toNat < 0xDC00

/-- The second half of a surrogate pair. -/
def isLow (unit : UInt16) : Bool := 0xDC00 ≤ unit.toNat ∧ unit.toNat < 0xE000

/-- The scalar value of one code unit outside a pair. -/
def single (unit : UInt16) : Char :=
  if isHigh unit ∨ isLow unit then replacement else Char.ofNat unit.toNat

/-- The scalar value of a surrogate pair. -/
def pair (high low : UInt16) : Char :=
  Char.ofNat (0x10000 + (high.toNat - 0xD800) * 0x400 + (low.toNat - 0xDC00))

/-- The scalar values of a text; a lone surrogate reads as the replacement character. -/
def scalars : Text → List Char
  | [] => []
  | [unit] => [single unit]
  | unit :: next :: rest =>
      if isHigh unit ∧ isLow next then pair unit next :: scalars rest
      else single unit :: scalars (next :: rest)

/-- The code units of one scalar value. -/
def units (char : Char) : Text :=
  if char.toNat < 0x10000 then [UInt16.ofNat char.toNat]
  else
    [UInt16.ofNat (0xD800 + (char.toNat - 0x10000) / 0x400),
      UInt16.ofNat (0xDC00 + (char.toNat - 0x10000) % 0x400)]

/-- The text with the given scalar values. -/
def ofScalars (chars : List Char) : Text := chars.flatMap units

/-- The text that a literal denotes. -/
def ofString (literal : String) : Text := ofScalars literal.toList

/-- The UTF-8 bytes of a text. -/
def toUtf8 (text : Text) : Bytes := (scalars text).flatMap String.utf8EncodeChar

/-- A number below 2^16 is the value of its code unit. -/
theorem toNat_ofNat_unit {n : Nat} (h : n < 2 ^ 16) : (UInt16.ofNat n).toNat = n := by
  rw [UInt16.toNat_ofNat']
  exact Nat.mod_eq_of_lt h

/-- A scalar value is not a surrogate. -/
theorem not_surrogate (char : Char) : char.toNat < 0xD800 ∨ 0xE000 ≤ char.toNat := by
  have h : char.toNat.isValidChar := char.valid
  simp only [Nat.isValidChar] at h
  omega

/-- A scalar value is at most U+10FFFF. -/
theorem toNat_lt (char : Char) : char.toNat < 0x110000 := by
  have h : char.toNat.isValidChar := char.valid
  simp only [Nat.isValidChar] at h
  omega

/-- A character of the basic plane is one code unit, and that is no high surrogate. -/
theorem single_units {char : Char} (h : char.toNat < 0x10000) :
    single (UInt16.ofNat char.toNat) = char ∧ isHigh (UInt16.ofNat char.toNat) = false := by
  have hvalue := toNat_ofNat_unit (n := char.toNat) (by omega)
  have hnot := not_surrogate char
  have hhigh : isHigh (UInt16.ofNat char.toNat) = false := by
    simp only [isHigh, hvalue, decide_eq_false_iff_not]
    omega
  have hlow : isLow (UInt16.ofNat char.toNat) = false := by
    simp only [isLow, hvalue, decide_eq_false_iff_not]
    omega
  refine ⟨?_, hhigh⟩
  simp [single, hhigh, hlow, hvalue, Char.ofNat_toNat]

/-- The code units of a scalar value read back as that scalar value, whatever follows. -/
theorem scalars_units_append (char : Char) (rest : Text) :
    scalars (units char ++ rest) = char :: scalars rest := by
  unfold units
  split
  · next h =>
      obtain ⟨hsingle, hhigh⟩ := single_units h
      cases rest with
      | nil => simp [scalars, hsingle]
      | cons next rest => simp [scalars, hsingle, hhigh]
  · next h =>
      have hbound := toNat_lt char
      have hhigh := toNat_ofNat_unit (n := 0xD800 + (char.toNat - 0x10000) / 0x400) (by omega)
      have hlow := toNat_ofNat_unit (n := 0xDC00 + (char.toNat - 0x10000) % 0x400) (by omega)
      have hpair : pair (UInt16.ofNat (0xD800 + (char.toNat - 0x10000) / 0x400))
          (UInt16.ofNat (0xDC00 + (char.toNat - 0x10000) % 0x400)) = char := by
        simp only [pair, hhigh, hlow]
        have hsum : 0x10000 + (0xD800 + (char.toNat - 0x10000) / 0x400 - 0xD800) * 0x400 +
            (0xDC00 + (char.toNat - 0x10000) % 0x400 - 0xDC00) = char.toNat := by omega
        rw [hsum, Char.ofNat_toNat]
      have hboth : isHigh (UInt16.ofNat (0xD800 + (char.toNat - 0x10000) / 0x400)) ∧
          isLow (UInt16.ofNat (0xDC00 + (char.toNat - 0x10000) % 0x400)) := by
        simp only [isHigh, isLow, hhigh, hlow, decide_eq_true_eq]
        omega
      show scalars (_ :: _ :: rest) = _
      rw [scalars, if_pos hboth, hpair]

/-- A text built from scalar values has these scalar values. -/
theorem scalars_ofScalars (chars : List Char) : scalars (ofScalars chars) = chars := by
  induction chars with
  | nil => rfl
  | cons char chars ih =>
      show scalars (units char ++ ofScalars chars) = _
      rw [scalars_units_append, ih]

/-! ## Decoding -/

/-- A character of which the first bytes have been read: how many continuation bytes are missing,
the range of the next one, and the bits so far. -/
structure Pending where
  needed : Nat
  lower : Nat
  upper : Nat
  codePoint : Nat

/-- What a byte between characters begins. -/
inductive Lead where
  | char (char : Char)
  | pending (pending : Pending)
  | invalid

/-- The reading of a byte between characters. The narrowed ranges after `E0`, `ED`, `F0` and `F4`
exclude overlong forms, surrogates and values above U+10FFFF. -/
def lead (byte : UInt8) : Lead :=
  let b := byte.toNat
  if b < 0x80 then .char (Char.ofNat b)
  else if 0xC2 ≤ b ∧ b ≤ 0xDF then .pending ⟨1, 0x80, 0xBF, b - 0xC0⟩
  else if 0xE0 ≤ b ∧ b ≤ 0xEF then
    .pending ⟨2, if b = 0xE0 then 0xA0 else 0x80, if b = 0xED then 0x9F else 0xBF, b - 0xE0⟩
  else if 0xF0 ≤ b ∧ b ≤ 0xF4 then
    .pending ⟨3, if b = 0xF0 then 0x90 else 0x80, if b = 0xF4 then 0x8F else 0xBF, b - 0xF0⟩
  else .invalid

/-- The scalar values of a byte sequence, from between characters (`none`) or inside one. A byte
that does not continue the pending character ends it as a replacement character and is then read
as a first byte itself. -/
def decode : Option Pending → Bytes → List Char
  | none, [] => []
  | some _, [] => [replacement]
  | none, byte :: bytes =>
      match lead byte with
      | .char char => char :: decode none bytes
      | .pending pending => decode (some pending) bytes
      | .invalid => replacement :: decode none bytes
  | some pending, byte :: bytes =>
      if pending.lower ≤ byte.toNat ∧ byte.toNat ≤ pending.upper then
        let codePoint := pending.codePoint * 64 + (byte.toNat - 0x80)
        if pending.needed = 1 then Char.ofNat codePoint :: decode none bytes
        else decode (some ⟨pending.needed - 1, 0x80, 0xBF, codePoint⟩) bytes
      else
        match lead byte with
        | .char char => replacement :: char :: decode none bytes
        | .pending fresh => replacement :: decode (some fresh) bytes
        | .invalid => replacement :: replacement :: decode none bytes

/-- The text of a UTF-8 byte sequence. -/
def ofUtf8 (bytes : Bytes) : Text := ofScalars (decode none bytes)

/-- A number below 256 is the value of its byte. -/
theorem toNat_ofNat_byte {n : Nat} (h : n < 2 ^ 8) : (UInt8.ofNat n).toNat = n := by
  rw [UInt8.toNat_ofNat']
  exact Nat.mod_eq_of_lt h

/-- A continuation byte that completes the pending character. -/
theorem decode_last {lower upper bits n : Nat} {char : Char} {rest : Bytes}
    (hlower : lower ≤ n % 64 + 0x80) (hupper : n % 64 + 0x80 ≤ upper)
    (hvalue : bits * 64 + n % 64 = char.toNat) :
    decode (some ⟨1, lower, upper, bits⟩) (UInt8.ofNat (n % 64 + 0x80) :: rest) =
      char :: decode none rest := by
  have hbyte := toNat_ofNat_byte (n := n % 64 + 0x80) (by omega)
  rw [decode, hbyte, if_pos ⟨hlower, hupper⟩, if_pos rfl, Nat.add_sub_cancel, hvalue,
    Char.ofNat_toNat]

/-- A continuation byte in the middle of the pending character. -/
theorem decode_more {needed lower upper bits n : Nat} {rest : Bytes}
    (hlower : lower ≤ n % 64 + 0x80) (hupper : n % 64 + 0x80 ≤ upper) :
    decode (some ⟨needed + 2, lower, upper, bits⟩) (UInt8.ofNat (n % 64 + 0x80) :: rest) =
      decode (some ⟨needed + 1, 0x80, 0xBF, bits * 64 + n % 64⟩) rest := by
  have hbyte := toNat_ofNat_byte (n := n % 64 + 0x80) (by omega)
  have hmore : ¬ needed + 2 = 1 := by omega
  rw [decode, hbyte, if_pos ⟨hlower, hupper⟩, if_neg hmore, Nat.add_sub_cancel]
  rfl

/-- A first byte that opens a longer character. -/
theorem decode_lead {n : Nat} {pending : Pending} {rest : Bytes}
    (h : lead (UInt8.ofNat n) = .pending pending) :
    decode none (UInt8.ofNat n :: rest) = decode (some pending) rest := by
  rw [decode, h]

/-- A first byte of the three byte forms. -/
theorem lead_three {n : Nat} (h : n < 16) :
    lead (UInt8.ofNat (n + 0xE0)) =
      .pending ⟨2, if n = 0 then 0xA0 else 0x80, if n = 13 then 0x9F else 0xBF, n⟩ := by
  have hbyte := toNat_ofNat_byte (n := n + 0xE0) (by omega)
  simp only [lead, hbyte]
  rw [if_neg (by omega), if_neg (by omega), if_pos (by omega), Nat.add_sub_cancel]
  simp only [Nat.add_eq_right, show n + 0xE0 = 0xED ↔ n = 13 by omega]

/-- A first byte of the four byte forms. -/
theorem lead_four {n : Nat} (h : n ≤ 4) :
    lead (UInt8.ofNat (n + 0xF0)) =
      .pending ⟨3, if n = 0 then 0x90 else 0x80, if n = 4 then 0x8F else 0xBF, n⟩ := by
  have hbyte := toNat_ofNat_byte (n := n + 0xF0) (by omega)
  simp only [lead, hbyte]
  rw [if_neg (by omega), if_neg (by omega), if_neg (by omega), if_pos (by omega),
    Nat.add_sub_cancel]
  simp only [Nat.add_eq_right, show n + 0xF0 = 0xF4 ↔ n = 4 by omega]

/-- An encoded character reads back, whatever bytes follow it. -/
theorem decode_encodeChar_append (char : Char) (rest : Bytes) :
    decode none (String.utf8EncodeChar char ++ rest) = char :: decode none rest := by
  have hbound := toNat_lt char
  have hnot := not_surrogate char
  have hval : char.val.toNat = char.toNat := rfl
  simp only [String.utf8EncodeChar, hval]
  split
  · next h =>
      have hbyte := toNat_ofNat_byte (n := char.toNat) (by omega)
      have hlead : lead (UInt8.ofNat char.toNat) = .char char := by
        simp only [lead, hbyte]
        rw [if_pos (by omega), Char.ofNat_toNat]
      rw [List.singleton_append, decode, hlead]
  · split
    · next h₁ h₂ =>
        have hfirst : char.toNat / 64 % 0x20 + 0xC0 < 2 ^ 8 := by omega
        have hlead : lead (UInt8.ofNat (char.toNat / 64 % 0x20 + 0xC0)) =
            .pending ⟨1, 0x80, 0xBF, char.toNat / 64⟩ := by
          simp only [lead, toNat_ofNat_byte hfirst]
          rw [if_neg (by omega), if_pos (by omega),
            show char.toNat / 64 % 0x20 + 0xC0 - 0xC0 = char.toNat / 64 by omega]
        rw [List.cons_append, decode_lead hlead]
        exact decode_last (by omega) (by omega) (by omega)
    · split
      · next h₁ h₂ h₃ =>
          have hsmall : char.toNat / 4096 % 0x10 = char.toNat / 4096 := by omega
          rw [hsmall, List.cons_append, decode_lead (lead_three (by omega)), List.cons_append]
          refine (decode_more ?_ ?_).trans (decode_last ?_ ?_ ?_)
          · split <;> omega
          · split <;> omega
          · omega
          · omega
          · omega
      · next h₁ h₂ h₃ =>
          have hsmall : char.toNat / 262144 % 0x08 = char.toNat / 262144 := by omega
          rw [hsmall, List.cons_append, decode_lead (lead_four (by omega)), List.cons_append]
          refine (decode_more ?_ ?_).trans
            ((decode_more ?_ ?_).trans (decode_last ?_ ?_ ?_))
          · split <;> omega
          · split <;> omega
          · omega
          · omega
          · omega
          · omega
          · omega

/-- Decoding undoes encoding. -/
theorem decode_encode (chars : List Char) :
    decode none (chars.flatMap String.utf8EncodeChar) = chars := by
  induction chars with
  | nil => rfl
  | cons char chars ih => rw [List.flatMap_cons, decode_encodeChar_append, ih]

/-- The text with every lone surrogate replaced. -/
def toWellFormed (text : Text) : Text := ofScalars (scalars text)

/-- Decoding an encoded text replaces its lone surrogates and changes nothing else. -/
theorem ofUtf8_toUtf8 (text : Text) : ofUtf8 (toUtf8 text) = toWellFormed text := by
  rw [ofUtf8, toUtf8, decode_encode, toWellFormed]

end Text

end KafkaJs.Data
