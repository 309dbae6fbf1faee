import KafkaJs.Data.Utf8
import Mathlib.Data.Int.Bitwise
import Mathlib.Data.Nat.Bitwise
import Mathlib.Tactic.Ring

/-!
# Integers as bytes

Two notations for integers. `bigEndian` writes a fixed number of bytes, most significant first,
and `ofBigEndian` reads them; `bmod_ofBigEndian` is the round trip for two's complement. `groups`
writes a natural number in base 128, least significant group first, with the top bit of every
byte but the last one set.

The last section reduces the bit operations by which programs compute such notations to
arithmetic.
-/

namespace KafkaJs.Data

/-! ## Fixed width -/

/-- The `width` low bytes of `n`, most significant first. -/
def bigEndian : Nat → Nat → Bytes
  | 0, _ => []
  | width + 1, n => UInt8.ofNat (n / 256 ^ width % 256) :: bigEndian width n

/-- The number that the bytes denote, continuing one already read. -/
def ofBigEndianFrom (high : Nat) (bytes : Bytes) : Nat :=
  bytes.foldl (fun value byte => value * 256 + byte.toNat) high

/-- The number that the bytes denote. -/
def ofBigEndian (bytes : Bytes) : Nat := ofBigEndianFrom 0 bytes

/-- A big-endian number of a width takes that many bytes. -/
@[simp] theorem length_bigEndian (width n : Nat) : (bigEndian width n).length = width := by
  induction width with
  | zero => rfl
  | succ width ih => simp [bigEndian, ih]

/-- Reading a number behind a high part shifts the high part by the width. -/
theorem ofBigEndianFrom_bigEndian (high width n : Nat) :
    ofBigEndianFrom high (bigEndian width n) = high * 256 ^ width + n % 256 ^ width := by
  induction width generalizing high with
  | zero => simp [bigEndian, ofBigEndianFrom, Nat.mod_one]
  | succ width ih =>
      have hbyte : (UInt8.ofNat (n / 256 ^ width % 256)).toNat = n / 256 ^ width % 256 :=
        Text.toNat_ofNat_byte (Nat.mod_lt _ (by decide))
      have hsplit : n % 256 ^ (width + 1) =
          256 ^ width * (n / 256 ^ width % 256) + n % 256 ^ width := by
        rw [Nat.pow_succ, Nat.mod_mul, Nat.add_comm]
      show ofBigEndianFrom (high * 256 + _) (bigEndian width n) = _
      rw [ih, hbyte, hsplit, Nat.pow_succ]
      ring

/-- Reading back what was written gives the number modulo the width. -/
theorem ofBigEndian_bigEndian (width n : Nat) :
    ofBigEndian (bigEndian width n) = n % 256 ^ width := by
  rw [ofBigEndian, ofBigEndianFrom_bigEndian, Nat.zero_mul, Nat.zero_add]

/-- The high part contributes its multiple of the bytes' range. -/
theorem ofBigEndianFrom_eq (high : Nat) (bytes : Bytes) :
    ofBigEndianFrom high bytes = high * 256 ^ bytes.length + ofBigEndian bytes := by
  induction bytes generalizing high with
  | nil => simp [ofBigEndian, ofBigEndianFrom]
  | cons byte bytes ih =>
      show ofBigEndianFrom (high * 256 + byte.toNat) bytes =
        _ + ofBigEndianFrom (0 * 256 + byte.toNat) bytes
      rw [ih, ih (0 * 256 + byte.toNat), List.length_cons, Nat.pow_succ]
      ring

/-- Bytes stand for a number below their range. -/
theorem ofBigEndian_lt (bytes : Bytes) : ofBigEndian bytes < 256 ^ bytes.length := by
  induction bytes with
  | nil => exact Nat.one_pos
  | cons byte bytes ih =>
      have hbyte : (byte.toNat + 1) * 256 ^ bytes.length ≤ 256 * 256 ^ bytes.length :=
        Nat.mul_le_mul_right _ byte.toNat_lt
      show ofBigEndianFrom (0 * 256 + byte.toNat) bytes < _
      rw [ofBigEndianFrom_eq, List.length_cons, Nat.pow_succ, Nat.zero_mul, Nat.zero_add]
      rw [Nat.succ_mul] at hbyte
      omega

/-- Bytes of one length are determined by the number that they denote. -/
theorem ofBigEndian_injective {first second : Bytes} (hlength : first.length = second.length)
    (h : ofBigEndian first = ofBigEndian second) : first = second := by
  induction first generalizing second with
  | nil => exact (List.length_eq_zero_iff.mp hlength.symm).symm
  | cons byte first ih =>
      cases second with
      | nil => exact absurd hlength (by simp)
      | cons other second =>
          have hlength' : first.length = second.length := by simpa using hlength
          have h' : ofBigEndianFrom (0 * 256 + byte.toNat) first =
            ofBigEndianFrom (0 * 256 + other.toNat) second := h
          rw [ofBigEndianFrom_eq, ofBigEndianFrom_eq, hlength', Nat.zero_mul, Nat.zero_add,
            Nat.zero_add] at h'
          -- The top byte is the quotient by the weight of the bytes behind it.
          have htop : ∀ (digit : Nat) {low : Nat}, low < 256 ^ second.length →
              (digit * 256 ^ second.length + low) / 256 ^ second.length = digit := by
            intro digit low hlow
            rw [Nat.add_comm, Nat.add_mul_div_right _ _ (by positivity), Nat.div_eq_of_lt hlow,
              Nat.zero_add]
          have hbyte : byte.toNat = other.toNat := by
            rw [← htop byte.toNat (hlength' ▸ ofBigEndian_lt first), h',
              htop _ (ofBigEndian_lt second)]
          rw [hbyte] at h'
          rw [UInt8.toNat_inj.mp hbyte, ih hlength' (Nat.add_left_cancel h')]

/-- The bytes of an integer in two's complement. -/
def intBytes (width : Nat) (value : Int) : Bytes :=
  bigEndian width (value % (256 ^ width : Nat)).toNat

/-- A signed integer of a width takes that many bytes. -/
@[simp] theorem length_intBytes (width : Nat) (value : Int) :
    (intBytes width value).length = width :=
  length_bigEndian width _

/-- The bytes of a signed integer hold its residue. -/
theorem ofBigEndian_intBytes (width : Nat) (value : Int) :
    (ofBigEndian (intBytes width value) : Int) = value % (256 ^ width : Nat) := by
  have hpos : (0 : Int) < (256 ^ width : Nat) := by positivity
  have hnonneg := Int.emod_nonneg value hpos.ne'
  have hlt := Int.emod_lt_of_pos value hpos
  rw [intBytes, ofBigEndian_bigEndian, Nat.mod_eq_of_lt (by omega), Int.toNat_of_nonneg hnonneg]

/-- Two's complement reads back every integer that the width can hold. -/
theorem bmod_ofBigEndian {width : Nat} {value : Int}
    (hlower : -((256 ^ width : Nat) / 2 : Int) ≤ value)
    (hupper : value < ((256 ^ width : Nat) : Int) / 2) :
    (ofBigEndian (intBytes width value) : Int).bmod (256 ^ width) = value := by
  rw [ofBigEndian_intBytes, Int.emod_bmod]
  refine Int.bmod_eq_of_le hlower (hupper.trans_le ?_)
  exact Int.ediv_le_ediv (by decide) (by omega)

/-- Two's complement takes different bytes of the width for different integers. -/
theorem bmod_ofBigEndian_injective {width : Nat} {first second : Bytes}
    (hfirst : first.length = width) (hsecond : second.length = width)
    (h : (ofBigEndian first : Int).bmod (256 ^ width) =
      (ofBigEndian second : Int).bmod (256 ^ width)) : first = second := by
  have hlt : ofBigEndian first < 256 ^ width := hfirst ▸ ofBigEndian_lt first
  have hlt' : ofBigEndian second < 256 ^ width := hsecond ▸ ofBigEndian_lt second
  have hmod := congrArg (· % ((256 ^ width : Nat) : Int)) h
  simp only [Int.bmod_emod] at hmod
  rw [← Int.natCast_mod, ← Int.natCast_mod, Nat.mod_eq_of_lt hlt, Nat.mod_eq_of_lt hlt'] at hmod
  exact ofBigEndian_injective (hfirst.trans hsecond.symm) (Int.ofNat_inj.mp hmod)

/-! ## Base 128 -/

/-- The base 128 notation of `n`; `fuel` bounds the number of continuation bytes. -/
def groups : Nat → Nat → Bytes
  | 0, n => [UInt8.ofNat (n % 128)]
  | fuel + 1, n =>
      if n < 128 then [UInt8.ofNat n]
      else UInt8.ofNat (n % 128 + 128) :: groups fuel (n / 128)

/-- The notation of a number below `128 ^ count` has at most `count` bytes. -/
theorem length_groups_le {fuel n count : Nat} (h : n < 128 ^ (count + 1)) :
    (groups fuel n).length ≤ count + 1 := by
  induction fuel generalizing n count with
  | zero => simp [groups]
  | succ fuel ih =>
      unfold groups
      split
      · simp
      · next hlarge =>
          cases count with
          | zero => omega
          | succ count =>
              have hnext : n / 128 < 128 ^ (count + 1) := by
                rw [Nat.div_lt_iff_lt_mul (by decide)]
                exact h.trans_eq (Nat.pow_succ ..)
              simpa using ih hnext

/-- A number has at least one group of seven bits. -/
theorem groups_ne_nil (fuel n : Nat) : groups fuel n ≠ [] := by
  cases fuel with
  | zero => simp [groups]
  | succ fuel =>
      unfold groups
      split <;> simp

/-! ## Bit operations -/

/-- The low seven bits. -/
theorem and_127 (n : Nat) : n &&& 127 = n % 128 := Nat.and_two_pow_sub_one_eq_mod n 7

/-- Setting the eighth bit. -/
theorem mod_or_128 (n : Nat) : n % 128 ||| 128 = n % 128 + 128 := by
  have h := Nat.two_pow_add_eq_or_of_lt (i := 7) (Nat.mod_lt n (by decide)) 1
  rw [Nat.or_comm, Nat.add_comm]
  exact h.symm

/-- A mask of the bits from the seventh up to the width tests for a second base 128 group. -/
theorem and_mask_eq_zero_iff {n width : Nat} (hwidth : 7 ≤ width) (hn : n < 2 ^ width) :
    n &&& (2 ^ width - 128) = 0 ↔ n < 128 := by
  have hmask : 2 ^ width - 128 = (2 ^ (width - 7) - 1) <<< 7 := by
    rw [Nat.shiftLeft_eq, Nat.sub_mul, ← Nat.pow_add, Nat.sub_add_cancel hwidth]
  have hand : n &&& (2 ^ width - 128) = (n / 128) <<< 7 := by
    refine Nat.eq_of_testBit_eq fun i => ?_
    rw [Nat.testBit_and, hmask, Nat.testBit_shiftLeft, Nat.testBit_shiftLeft,
      Nat.testBit_two_pow_sub_one, show (128 : Nat) = 2 ^ 7 from rfl, Nat.testBit_div_two_pow]
    by_cases hi : 7 ≤ i
    · by_cases hlt : i < width
      · simp [hi, show i - 7 < width - 7 by omega, Nat.sub_add_cancel hi]
      · have hzero : n.testBit i = false :=
          Nat.testBit_lt_two_pow (hn.trans_le (Nat.pow_le_pow_right (by decide) (by omega)))
        simp [Nat.sub_add_cancel hi, hzero]
    · simp [hi]
  rw [hand, Nat.shiftLeft_eq]
  omega

end KafkaJs.Data
