import KafkaJs.Data.Integers
import KafkaJs.Utils.Long
import Mathlib.Tactic.Linarith

/-!
# Variable length integers

The zigzag and base 128 computations of `protocol/encoder.js` and `protocol/decoder.js`. The
32-bit ones work on `BitVec 32`, since every bit operation of the language first reduces its
operands to 32 bits; the 64-bit ones work on the unbounded integers of `Long`.

`varIntBytes` and `varLongBytes` are the byte arrays that the writers build. The loops of the
readers run over the bytes that are left; `readVarIntFrom_varIntBytes` and
`readVarLongFrom_varLongBytes` say that a reader recovers the integer from the bytes of the
writer, whatever follows, and consumes exactly these.
-/

namespace KafkaJs.Protocol

open KafkaJs.Data

/-! ## Writing -/

/-- `encodeZigZag`: `(value << 1) ^ (value >> 31)`. -/
def encodeZigZag (value : Int) : BitVec 32 :=
  (BitVec.ofInt 32 value <<< 1) ^^^ (BitVec.ofInt 32 value).sshiftRight 31

/-- `encodeZigZag64`. -/
def encodeZigZag64 (value : Int) : Int :=
  Long.xor (Long.shiftLeft value 1) (Long.shiftRight value 63)

/-- The loop of `writeUVarInt`. The value falls with every round, so the value itself is fuel
enough. -/
def uVarIntLoop : Nat → BitVec 32 → Bytes
  | 0, value => [UInt8.ofNat (value &&& 0x7f#32).toNat]
  | fuel + 1, value =>
      if value &&& 0xffffff80#32 ≠ 0#32 then
        UInt8.ofNat ((value &&& 0x7f#32) ||| 0x80#32).toNat :: uVarIntLoop fuel (value >>> 7)
      else [UInt8.ofNat (value &&& 0x7f#32).toNat]

/-- The bytes that `writeUVarInt` writes. -/
def uVarIntBytes (value : BitVec 32) : Bytes := uVarIntLoop value.toNat value

/-- The bytes that `writeVarInt` writes. -/
def varIntBytes (value : Int) : Bytes := uVarIntBytes (encodeZigZag value)

/-- The loop of `sizeOfVarInt`. -/
def sizeOfVarIntLoop : Nat → BitVec 32 → Nat → Nat
  | 0, _, bytes => bytes
  | fuel + 1, encodedValue, bytes =>
      if encodedValue &&& 0xffffff80#32 ≠ 0#32 then
        sizeOfVarIntLoop fuel (encodedValue >>> 7) (bytes + 1)
      else bytes

/-- `sizeOfVarInt`. -/
def sizeOfVarInt (value : Int) : Nat :=
  sizeOfVarIntLoop (encodeZigZag value).toNat (encodeZigZag value) 1

/-- The loop of `writeVarLong`. -/
def varLongLoop : Nat → Int → Bytes
  | 0, longValue => [UInt8.ofInt (Long.toInt longValue)]
  | fuel + 1, longValue =>
      if Long.and longValue 0xffffffffffffff80 ≠ 0 then
        UInt8.ofInt (Long.toInt (Long.or (Long.and longValue 0x7f) 0x80)) ::
          varLongLoop fuel (Long.shiftRightUnsigned longValue 7)
      else [UInt8.ofInt (Long.toInt longValue)]

/-- The bytes that `writeVarLong` writes. -/
def varLongBytes (value : Int) : Bytes :=
  varLongLoop (encodeZigZag64 value).toNat (encodeZigZag64 value)

/-- The loop of `sizeOfVarLong`. -/
def sizeOfVarLongLoop : Nat → Int → Nat → Nat
  | 0, _, bytes => bytes
  | fuel + 1, longValue, bytes =>
      if Long.and longValue 0xffffffffffffff80 ≠ 0 then
        sizeOfVarLongLoop fuel (Long.shiftRightUnsigned longValue 7) (bytes + 1)
      else bytes

/-- `sizeOfVarLong`. -/
def sizeOfVarLong (value : Int) : Nat :=
  sizeOfVarLongLoop (encodeZigZag64 value).toNat (encodeZigZag64 value) 1

/-! ## Reading -/

/-- `decodeZigZag`: `(value >>> 1) ^ -(value & 1)`. -/
def decodeZigZag (value : Int) : Int :=
  ((BitVec.ofInt 32 value >>> 1) ^^^ -(BitVec.ofInt 32 value &&& 1#32)).toInt

/-- `decodeZigZag64`. -/
def decodeZigZag64 (longValue : Int) : Int :=
  Long.xor (Long.shiftRightUnsigned longValue 1)
    (Long.negate (Long.and longValue (Long.fromInt 1)))

/-- The loop of `readVarInt` over the bytes that are left, with the number of bytes it consumes.
A byte past the end is undefined: it counts as zero and ends the loop. Shifts count modulo 32. -/
def readVarIntLoop : Bytes → Nat → Int → Int × Nat
  | [], _, result => (result, 1)
  | currentByte :: rest, i, result =>
      let result := result + (BitVec.ofNat 32 (currentByte.toNat % 128) <<< (i % 32)).toInt
      if currentByte.toNat ≥ 0x80 then
        let (result, count) := readVarIntLoop rest (i + 7) result
        (result, count + 1)
      else (result, 1)

/-- The value and the number of bytes that `readVarInt` reads. -/
def readVarIntFrom (bytes : Bytes) : Int × Nat :=
  let (result, count) := readVarIntLoop bytes 0 0
  (decodeZigZag result, count)

/-- The loop of `readVarLong`; `none` where it throws. -/
def readVarLongLoop : Bytes → Nat → Int → Option (Int × Nat)
  | [], i, result => if i > 63 then none else some (result, 1)
  | currentByte :: rest, i, result =>
      if i > 63 then none
      else
        let result := result + Long.shiftLeft (Long.fromInt (currentByte.toNat % 128)) i
        if currentByte.toNat ≥ 0x80 then
          (readVarLongLoop rest (i + 7) result).map fun (result, count) => (result, count + 1)
        else some (result, 1)

/-- The value and the number of bytes that `readVarLong` reads. -/
def readVarLongFrom (bytes : Bytes) : Option (Int × Nat) :=
  (readVarLongLoop bytes 0 0).map fun (result, count) => (decodeZigZag64 result, count)

/-- The loop of `readUVarInt`; `none` where it throws. The last byte is not masked: its top bit is
clear. -/
def readUVarIntLoop : Bytes → Nat → BitVec 32 → Option (BitVec 32 × Nat)
  | [], _, result => some (result, 1)
  | currentByte :: rest, i, result =>
      if currentByte.toNat ≥ 0x80 then
        if i + 7 > 28 then none
        else
          (readUVarIntLoop rest (i + 7)
            (result ||| BitVec.ofNat 32 (currentByte.toNat % 128) <<< i)).map
              fun (result, count) => (result, count + 1)
      else some (result ||| BitVec.ofNat 32 currentByte.toNat <<< i, 1)

/-- `readUVarInt` with the number of bytes it consumes: `result >>> 0` is the unsigned value. -/
def readUVarIntFrom (bytes : Bytes) : Option (Nat × Nat) :=
  (readUVarIntLoop bytes 0 0#32).map fun (result, count) => (result.toNat, count)

/-! ## The writers in base 128 -/

/-- The mask of 32 bits tells whether seven bits are enough. -/
theorem and_mask32 (value : BitVec 32) :
    value &&& 0xffffff80#32 ≠ 0#32 ↔ ¬ value.toNat < 128 := by
  have h := @and_mask_eq_zero_iff value.toNat 32 (by decide) value.isLt
  rw [← h, ne_eq, BitVec.toNat_eq, BitVec.toNat_and]
  rfl

/-- The loop writes groups of seven bits. -/
theorem uVarIntLoop_eq (fuel : Nat) (value : BitVec 32) :
    uVarIntLoop fuel value = groups fuel value.toNat := by
  induction fuel generalizing value with
  | zero => simp [uVarIntLoop, groups, and_127]
  | succ fuel ih =>
      unfold uVarIntLoop groups
      by_cases h : value.toNat < 128
      · rw [if_neg (by rw [and_mask32]; simpa using h), if_pos h]
        simp [and_127, Nat.mod_eq_of_lt h]
      · rw [if_pos ((and_mask32 value).mpr h), if_neg h, ih]
        simp [and_127, mod_or_128, Nat.shiftRight_eq_div_pow]

/-- A varint has bytes. -/
theorem uVarIntBytes_ne_nil (value : BitVec 32) : uVarIntBytes value ≠ [] := by
  rw [uVarIntBytes, uVarIntLoop_eq]
  exact groups_ne_nil _ _

/-- A signed varint has bytes. -/
theorem varIntBytes_ne_nil (value : Int) : varIntBytes value ≠ [] := uVarIntBytes_ne_nil _

/-- A varlong has bytes. -/
theorem varLongBytes_ne_nil (value : Int) : varLongBytes value ≠ [] := by
  rw [varLongBytes]
  cases (encodeZigZag64 value).toNat with
  | zero => simp [varLongLoop]
  | succ fuel =>
      unfold varLongLoop
      split <;> simp

/-- The loop of the size counts the bytes of the other. -/
theorem sizeOfVarIntLoop_eq (fuel : Nat) (value : BitVec 32) (bytes : Nat) :
    sizeOfVarIntLoop fuel value (bytes + 1) = bytes + (uVarIntLoop fuel value).length := by
  induction fuel generalizing value bytes with
  | zero => simp [sizeOfVarIntLoop, uVarIntLoop]
  | succ fuel ih =>
      unfold sizeOfVarIntLoop uVarIntLoop
      split
      · rw [ih, List.length_cons]
        omega
      · rfl

/-- The size computed ahead is the number of bytes written. -/
theorem sizeOfVarInt_eq (value : Int) : sizeOfVarInt value = (varIntBytes value).length := by
  have h := sizeOfVarIntLoop_eq (encodeZigZag value).toNat (encodeZigZag value) 0
  rw [Nat.zero_add] at h
  exact h.trans (Nat.zero_add _)

/-- The zigzag image of an integer that is not negative is even. -/
theorem encodeZigZag64_of_nonneg {value : Int} (h : 0 ≤ value) (hupper : value < 2 ^ 63) :
    encodeZigZag64 value = value * 2 := by
  have hsign : Long.shiftRight value 63 = 0 := Int.ediv_eq_zero_of_lt h hupper
  rw [encodeZigZag64, hsign, Long.xor_zero]
  rfl

/-- The zigzag image of a negative integer is odd. -/
theorem encodeZigZag64_of_neg {value : Int} (h : value < 0) (hlower : -2 ^ 63 ≤ value) :
    encodeZigZag64 value = -(value * 2) - 1 := by
  have hsign : Long.shiftRight value 63 = -1 := by
    show value / 2 ^ 63 = -1
    omega
  rw [encodeZigZag64, hsign, Long.xor_neg_one]
  rfl

/-- `decodeZigZag64` splits off the lowest bit. -/
theorem decodeZigZag64_natCast (n : Nat) :
    decodeZigZag64 n = if n % 2 = 0 then (n / 2 : Int) else -(n / 2 : Int) - 1 := by
  have hhalf : Long.shiftRightUnsigned n 1 = (n / 2 : Int) := rfl
  have hbit : Long.and n (Long.fromInt 1) = (n % 2 : Nat) := by
    rw [show Long.fromInt 1 = ((1 : Nat) : Int) from rfl, Long.and_natCast, Nat.and_one_is_mod]
  rw [decodeZigZag64, hhalf, hbit]
  split
  · next h =>
      rw [h, show Long.negate ((0 : Nat) : Int) = 0 from rfl, Long.xor_zero]
  · next h =>
      rw [show n % 2 = 1 by omega, show Long.negate ((1 : Nat) : Int) = -1 from rfl,
        Long.xor_neg_one]

/-- The zigzag image of a 64-bit integer is a natural number of 64 bits, from which it is
recovered. -/
theorem encodeZigZag64_eq_natCast {value : Int} (hlower : -2 ^ 63 ≤ value)
    (hupper : value < 2 ^ 63) :
    ∃ n : Nat, n < 2 ^ 64 ∧ encodeZigZag64 value = n ∧ decodeZigZag64 n = value := by
  by_cases h : 0 ≤ value
  · refine ⟨(value * 2).toNat, by omega, ?_, ?_⟩
    · rw [encodeZigZag64_of_nonneg h hupper, Int.toNat_of_nonneg (by omega)]
    · rw [decodeZigZag64_natCast, if_pos (by omega)]
      omega
  · refine ⟨(-(value * 2) - 1).toNat, by omega, ?_, ?_⟩
    · rw [encodeZigZag64_of_neg (by omega) hlower, Int.toNat_of_nonneg (by omega)]
    · rw [decodeZigZag64_natCast, if_neg (by omega)]
      omega

/-- A byte is the same as a `Long` and as a number. -/
theorem ofInt_toInt_of_lt {n : Nat} (h : n < 256) :
    UInt8.ofInt (Long.toInt n) = UInt8.ofNat n := by
  have hcut : Long.toInt n = n := Long.asIntN_of_bounds (by omega) (by norm_num; omega)
  have hmod : ((n : Int) % 2 ^ 8).toNat = n := by omega
  rw [hcut, UInt8.ofInt, hmod]

/-- The mask of 64 bits tells whether seven bits are enough. -/
theorem and_mask64 {n : Nat} (h : n < 2 ^ 64) :
    Long.and n 0xffffffffffffff80 ≠ 0 ↔ ¬ n < 128 := by
  have hand : Long.and n 0xffffffffffffff80 = (n &&& (2 ^ 64 - 128) : Nat) := rfl
  rw [hand, ← @and_mask_eq_zero_iff n 64 (by decide) h]
  norm_cast

/-- The loop writes groups of seven bits of a `Long`. -/
theorem varLongLoop_eq {fuel n : Nat} (hfuel : n ≤ fuel) (h : n < 2 ^ 64) :
    varLongLoop fuel n = groups fuel n := by
  induction fuel generalizing n with
  | zero =>
      have hzero : n = 0 := by omega
      subst hzero
      rfl
  | succ fuel ih =>
      unfold varLongLoop groups
      by_cases hsmall : n < 128
      · rw [if_neg (by rw [and_mask64 h]; simpa using hsmall), if_pos hsmall,
          ofInt_toInt_of_lt (by omega)]
      · have hbyte : Long.or (Long.and n 0x7f) 0x80 = (n % 128 + 128 : Nat) := by
          rw [← mod_or_128, ← and_127]
          rfl
        have hnext : Long.shiftRightUnsigned n 7 = (n / 128 : Nat) := by
          show (n : Int) / 2 ^ 7 = _
          norm_num
        rw [if_pos ((and_mask64 h).mpr hsmall), if_neg hsmall, hbyte,
          ofInt_toInt_of_lt (by omega), hnext, ih (by omega) (by omega)]

/-- The loop of the size counts the bytes of a varlong. -/
theorem sizeOfVarLongLoop_eq (fuel : Nat) (value : Int) (bytes : Nat) :
    sizeOfVarLongLoop fuel value (bytes + 1) = bytes + (varLongLoop fuel value).length := by
  induction fuel generalizing value bytes with
  | zero => simp [sizeOfVarLongLoop, varLongLoop]
  | succ fuel ih =>
      unfold sizeOfVarLongLoop varLongLoop
      split
      · rw [ih, List.length_cons]
        omega
      · rfl

/-- The size computed ahead is the number of bytes written. -/
theorem sizeOfVarLong_eq (value : Int) : sizeOfVarLong value = (varLongBytes value).length := by
  have h := sizeOfVarLongLoop_eq (encodeZigZag64 value).toNat (encodeZigZag64 value) 0
  rw [Nat.zero_add] at h
  exact h.trans (Nat.zero_add _)

/-! ## The readers undo the writers -/

/-- A continuation byte. -/
theorem toNat_continuation (n : Nat) : (UInt8.ofNat (n % 128 + 128)).toNat = n % 128 + 128 :=
  Text.toNat_ofNat_byte (by omega)

/-- One group of `readVarInt`, modulo `2 ^ 32`. -/
theorem ofInt_add_group {i : Nat} (result : Int) (hi : i < 32) (m : Nat) :
    BitVec.ofInt 32 (result + (BitVec.ofNat 32 m <<< (i % 32)).toInt) =
      BitVec.ofInt 32 result + BitVec.ofNat 32 (m * 2 ^ i) := by
  rw [BitVec.ofInt_add, BitVec.ofInt_toInt, Nat.mod_eq_of_lt hi]
  congr 1
  apply BitVec.eq_of_toNat_eq
  simp [Nat.shiftLeft_eq]

/-- `readVarInt` adds up the groups: its sum agrees with the number modulo `2 ^ 32`. -/
theorem readVarIntLoop_groups {fuel n i : Nat} (rest : Bytes) (result : Int) (hfuel : n ≤ fuel)
    (hi : i < 32) (h : n * 2 ^ i < 2 ^ 32) :
    ∃ sum, readVarIntLoop (groups fuel n ++ rest) i result = (sum, (groups fuel n).length) ∧
      BitVec.ofInt 32 sum = BitVec.ofInt 32 result + BitVec.ofNat 32 (n * 2 ^ i) := by
  induction fuel generalizing n i result with
  | zero =>
      have hzero : n = 0 := by omega
      subst hzero
      exact ⟨_, rfl, ofInt_add_group result hi 0⟩
  | succ fuel ih =>
      unfold groups
      split
      · next hsmall =>
          have hbyte : (UInt8.ofNat n).toNat = n := Text.toNat_ofNat_byte (by omega)
          rw [List.singleton_append, readVarIntLoop, hbyte, if_neg (by omega),
            Nat.mod_eq_of_lt hsmall]
          exact ⟨_, rfl, ofInt_add_group result hi n⟩
      · next hlarge =>
          -- a further group only exists below bit 32, so the shift does not wrap around
          have hnext : n / 128 * 2 ^ (i + 7) ≤ n * 2 ^ i := by
            calc n / 128 * 2 ^ (i + 7) = n / 128 * 128 * 2 ^ i := by
                  rw [Nat.pow_add]
                  ring
              _ ≤ n * 2 ^ i := Nat.mul_le_mul_right _ (Nat.div_mul_le_self n 128)
          have hshift : i + 7 < 32 := by
            have hpow : 2 ^ (i + 7) < 2 ^ 32 := by
              have hone : 1 * 2 ^ (i + 7) ≤ n / 128 * 2 ^ (i + 7) :=
                Nat.mul_le_mul_right _ (by omega)
              omega
            exact (Nat.pow_lt_pow_iff_right (by decide)).mp hpow
          rw [List.cons_append, readVarIntLoop, toNat_continuation, if_pos (by omega),
            show (n % 128 + 128) % 128 = n % 128 by omega]
          obtain ⟨sum, hsum, hvalue⟩ := ih (result +
            (BitVec.ofNat 32 (n % 128) <<< (i % 32)).toInt) (by omega : n / 128 ≤ fuel) hshift
            (by omega)
          refine ⟨sum, by rw [hsum, List.length_cons], ?_⟩
          rw [hvalue, ofInt_add_group result hi, BitVec.add_assoc, ← BitVec.ofNat_add]
          congr 2
          calc n % 128 * 2 ^ i + n / 128 * 2 ^ (i + 7)
              = (n % 128 + 128 * (n / 128)) * 2 ^ i := by
                rw [Nat.pow_add]
                ring
            _ = n * 2 ^ i := by rw [Nat.mod_add_div]

/-- Shifting out all bits but the sign fills the word with it. -/
theorem sshiftRight_sign {w : Nat} (x : BitVec (w + 1)) :
    x.sshiftRight w = if x.msb then BitVec.allOnes (w + 1) else 0#(w + 1) := by
  ext i hi
  rw [BitVec.getElem_sshiftRight]
  by_cases h0 : i = 0
  · subst h0
    have hlast : x[w] = x.msb := by simp [BitVec.msb_eq_getLsbD_last]
    simp only [Nat.add_zero, Nat.lt_add_one, dif_pos, hlast]
    cases x.msb <;> simp
  · rw [dif_neg (by omega)]
    cases x.msb <;> simp

/-- `decodeZigZag` undoes `encodeZigZag`, on words of any width. -/
theorem zigZag_cancel {w : Nat} (x : BitVec (w + 1)) :
    (((x <<< 1) ^^^ x.sshiftRight w) >>> 1) ^^^
      -(((x <<< 1) ^^^ x.sshiftRight w) &&& 1#(w + 1)) = x := by
  have hlast : x[w] = x.msb := by simp [BitVec.msb_eq_getLsbD_last]
  rw [sshiftRight_sign]
  cases hm : x.msb with
  | false =>
      have hlow : ((x <<< 1) ^^^ 0#(w + 1)) &&& 1#(w + 1) = 0#(w + 1) := by
        ext i hi
        cases i <;> simp [BitVec.getElem_one]
      simp only [Bool.false_eq_true, if_false, hlow]
      ext i hi
      by_cases hw : i = w
      · subst hw
        simp [hlast, hm]
      · simp [show 1 + i < w + 1 by omega]
  | true =>
      have hlow : ((x <<< 1) ^^^ BitVec.allOnes (w + 1)) &&& 1#(w + 1) = 1#(w + 1) := by
        ext i hi
        cases i <;> simp [BitVec.getElem_one]
      simp only [if_true, hlow, BitVec.neg_one_eq_allOnes]
      ext i hi
      by_cases hw : i = w
      · subst hw
        simp [hlast, hm]
      · simp [show 1 + i < w + 1 by omega]

/-- `readVarInt` recovers every 32-bit integer from the bytes that `writeVarInt` writes, whatever
follows, and consumes exactly these bytes. -/
theorem readVarIntFrom_varIntBytes {value : Int} (rest : Bytes) (hlower : -2 ^ 31 ≤ value)
    (hupper : value < 2 ^ 31) :
    readVarIntFrom (varIntBytes value ++ rest) = (value, (varIntBytes value).length) := by
  have hlt : (encodeZigZag value).toNat * 2 ^ 0 < 2 ^ 32 := by
    rw [Nat.pow_zero, Nat.mul_one]
    exact (encodeZigZag value).isLt
  obtain ⟨sum, hsum, hvalue⟩ := readVarIntLoop_groups rest 0 (le_refl _) (by decide) hlt
  rw [varIntBytes, uVarIntBytes, uVarIntLoop_eq, readVarIntFrom, hsum]
  have hzigzag : BitVec.ofInt 32 sum = encodeZigZag value := by
    rw [hvalue]
    simp
  simp only [decodeZigZag, hzigzag, encodeZigZag, zigZag_cancel, Prod.mk.injEq,
    and_true]
  rw [BitVec.toInt_ofInt]
  exact Int.bmod_eq_of_le (by norm_num; omega) (by norm_num; omega)

/-- One group of `readVarLong`. -/
theorem shiftLeft_group {m : Nat} (hm : m < 128) (i : Nat) :
    Long.shiftLeft (Long.fromInt m) i = m * 2 ^ i := by
  rw [Long.fromInt, Long.asIntN_of_bounds (by omega) (by norm_num; omega)]
  rfl

/-- `readVarLong` adds up the groups. -/
theorem readVarLongLoop_groups {fuel n i : Nat} (rest : Bytes) (result : Int) (hfuel : n ≤ fuel)
    (hi : i + 7 * (groups fuel n).length ≤ 70) :
    readVarLongLoop (groups fuel n ++ rest) i result =
      some (result + n * 2 ^ i, (groups fuel n).length) := by
  induction fuel generalizing n i result with
  | zero =>
      have hzero : n = 0 := by omega
      subst hzero
      simp only [groups, List.length_singleton] at hi
      rw [groups, List.singleton_append, readVarLongLoop, if_neg (by omega)]
      simpa using @shiftLeft_group 0 (by decide) i
  | succ fuel ih =>
      unfold groups at hi ⊢
      split
      · next hsmall =>
          have hbyte : (UInt8.ofNat n).toNat = n := Text.toNat_ofNat_byte (by omega)
          rw [if_pos hsmall, List.length_singleton] at hi
          rw [List.singleton_append, readVarLongLoop, hbyte, if_neg (by omega),
            if_neg (by omega), show (n : Int) % 128 = n by omega,
            shiftLeft_group hsmall]
          rfl
      · next hlarge =>
          rw [if_neg hlarge, List.length_cons] at hi
          rw [List.cons_append, readVarLongLoop, toNat_continuation, if_neg (by omega),
            if_pos (by omega), show ((n % 128 + 128 : Nat) : Int) % 128 = (n % 128 : Nat) by omega,
            shiftLeft_group (by omega), ih _ (by omega) (by omega)]
          simp only [Option.map_some, List.length_cons, Option.some.injEq, Prod.mk.injEq, and_true]
          have hsplit : (n : Int) = (n % 128 : Nat) + 128 * (n / 128 : Nat) := by omega
          calc result + (n % 128 : Nat) * 2 ^ i + (n / 128 : Nat) * 2 ^ (i + 7)
              = result + ((n % 128 : Nat) + 128 * (n / 128 : Nat)) * 2 ^ i := by
                rw [pow_add]
                ring
            _ = result + n * 2 ^ i := by rw [← hsplit]

/-- `readVarLong` recovers every 64-bit integer from the bytes that `writeVarLong` writes,
whatever follows, and consumes exactly these bytes. -/
theorem readVarLongFrom_varLongBytes {value : Int} (rest : Bytes) (hlower : -2 ^ 63 ≤ value)
    (hupper : value < 2 ^ 63) :
    readVarLongFrom (varLongBytes value ++ rest) = some (value, (varLongBytes value).length) := by
  obtain ⟨n, hn, hencode, hdecode⟩ := encodeZigZag64_eq_natCast hlower hupper
  have hbytes : varLongBytes value = groups n n := by
    rw [varLongBytes, hencode, Int.toNat_natCast, varLongLoop_eq (le_refl n) hn]
  have hlength : (groups n n).length ≤ 10 :=
    @length_groups_le n n 9 (hn.trans (by norm_num))
  rw [hbytes, readVarLongFrom, readVarLongLoop_groups rest 0 (le_refl n) (by omega)]
  simp [hdecode]

/-- A group above the bits read so far is added by `|`. -/
theorem toNat_or_group {result : BitVec 32} {m i : Nat} (hresult : result.toNat < 2 ^ i)
    (h : m * 2 ^ i < 2 ^ 32) :
    (result ||| BitVec.ofNat 32 m <<< i).toNat = result.toNat + m * 2 ^ i := by
  have hm : m < 2 ^ 32 := lt_of_le_of_lt (Nat.le_mul_of_pos_right m (Nat.two_pow_pos i)) h
  have hgroup : (BitVec.ofNat 32 m <<< i).toNat = 2 ^ i * m := by
    rw [BitVec.toNat_shiftLeft, BitVec.toNat_ofNat, Nat.mod_eq_of_lt hm, Nat.shiftLeft_eq,
      Nat.mod_eq_of_lt h, Nat.mul_comm]
  rw [BitVec.toNat_or, hgroup, Nat.or_comm, ← Nat.two_pow_add_eq_or_of_lt hresult, Nat.add_comm,
    Nat.mul_comm]

/-- `readUVarInt` puts the groups together. -/
theorem readUVarIntLoop_groups {fuel n k : Nat} (rest : Bytes) {result : BitVec 32}
    (hfuel : n ≤ fuel) (hresult : result.toNat < 2 ^ (7 * k)) (h : n * 2 ^ (7 * k) < 2 ^ 32) :
    ∃ value, readUVarIntLoop (groups fuel n ++ rest) (7 * k) result =
        some (value, (groups fuel n).length) ∧
      value.toNat = result.toNat + n * 2 ^ (7 * k) := by
  induction fuel generalizing n k result with
  | zero =>
      have hzero : n = 0 := by omega
      subst hzero
      exact ⟨_, rfl, toNat_or_group hresult h⟩
  | succ fuel ih =>
      unfold groups
      split
      · next hsmall =>
          have hbyte : (UInt8.ofNat n).toNat = n := Text.toNat_ofNat_byte (by omega)
          rw [List.singleton_append, readUVarIntLoop, hbyte, if_neg (by omega)]
          exact ⟨_, rfl, toNat_or_group hresult h⟩
      · next hlarge =>
          have hpow : 2 ^ (7 * (k + 1)) = 128 * 2 ^ (7 * k) := by
            rw [show 7 * (k + 1) = 7 + 7 * k by omega, Nat.pow_add]
          have hsplit : n * 2 ^ (7 * k) = n % 128 * 2 ^ (7 * k) + n / 128 * 2 ^ (7 * (k + 1)) := by
            calc n * 2 ^ (7 * k) = (n % 128 + 128 * (n / 128)) * 2 ^ (7 * k) := by
                  rw [Nat.mod_add_div]
              _ = n % 128 * 2 ^ (7 * k) + n / 128 * 2 ^ (7 * (k + 1)) := by
                  rw [hpow]
                  ring
          -- a further group only exists below bit 32, so there is no sixth byte
          have hshift : 7 * (k + 1) < 32 := by
            have hone : 1 * 2 ^ (7 * (k + 1)) ≤ n / 128 * 2 ^ (7 * (k + 1)) :=
              Nat.mul_le_mul_right _ (by omega)
            exact (Nat.pow_lt_pow_iff_right (by decide)).mp (by omega : 2 ^ (7 * (k + 1)) < 2 ^ 32)
          have hgroup := @toNat_or_group result (n % 128) (7 * k) hresult (by omega)
          have hbound : (result ||| BitVec.ofNat 32 (n % 128) <<< (7 * k)).toNat <
              2 ^ (7 * (k + 1)) := by
            have hmod : n % 128 * 2 ^ (7 * k) ≤ 127 * 2 ^ (7 * k) :=
              Nat.mul_le_mul_right _ (by omega)
            omega
          obtain ⟨value, hvalue, hsum⟩ := ih (by omega) hbound (by omega : n / 128 * _ < 2 ^ 32)
          rw [List.cons_append, readUVarIntLoop, toNat_continuation, if_pos (by omega),
            if_neg (by omega), show (n % 128 + 128) % 128 = n % 128 by omega,
            show 7 * k + 7 = 7 * (k + 1) by omega, hvalue]
          refine ⟨value, rfl, ?_⟩
          rw [hsum, hgroup]
          omega

/-- `readUVarInt` recovers every unsigned 32-bit integer from the bytes that `writeUVarInt`
writes, whatever follows, and consumes exactly these bytes. -/
theorem readUVarIntFrom_uVarIntBytes (value : BitVec 32) (rest : Bytes) :
    readUVarIntFrom (uVarIntBytes value ++ rest) =
      some (value.toNat, (uVarIntBytes value).length) := by
  have hlt : value.toNat * 2 ^ (7 * 0) < 2 ^ 32 := by
    rw [Nat.mul_zero, Nat.pow_zero, Nat.mul_one]
    exact value.isLt
  obtain ⟨result, hresult, hvalue⟩ :=
    @readUVarIntLoop_groups _ _ 0 rest 0#32 (le_refl _) (by decide) hlt
  rw [uVarIntBytes, uVarIntLoop_eq, readUVarIntFrom, hresult]
  simp [hvalue]

end KafkaJs.Protocol
