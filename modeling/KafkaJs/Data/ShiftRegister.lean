import Mathlib.Data.BitVec
import Mathlib.Logic.Function.Iterate

/-!
# Cyclic redundancy checks by shift register

A check is defined bit by bit: the register takes in the bits of the message, of each byte the
least significant first, and is divided by the polynomial at each of them (`feed`). A table of
the remainders of all groups of `n` bits takes in a whole group at once: `table_step`. Width,
polynomial and group size are parameters.
-/

namespace KafkaJs.Data.ShiftRegister

variable {w : Nat} (polynomial : BitVec w)

/-- The register takes in one bit. -/
def feed (register : BitVec w) (bit : Bool) : BitVec w :=
  if (register.getLsbD 0 ^^ bit) = true then (register >>> 1) ^^^ polynomial else register >>> 1

/-- The register takes in a zero. -/
def clock (register : BitVec w) : BitVec w := feed polynomial register false

/-- The low bits of a number, the least significant first. -/
def lowBits (count value : Nat) : List Bool := (List.range count).map value.testBit

/-- The check of a sequence of bytes: the register starts from all ones and is inverted in the
end. -/
def checksum (bytes : List UInt8) : BitVec w :=
  (bytes.flatMap fun byte => lowBits 8 byte.toNat).foldl (feed polynomial) (BitVec.allOnes w) ^^^
    BitVec.allOnes w

/-- Of no bits there are none. -/
@[simp] theorem lowBits_zero (value : Nat) : lowBits 0 value = [] := rfl

/-- The low bits begin with the lowest. -/
theorem lowBits_succ (count value : Nat) :
    lowBits (count + 1) value = value.testBit 0 :: lowBits count (value / 2) := by
  simp only [lowBits, List.range_succ_eq_map, List.map_cons, List.map_map, Function.comp_def,
    Nat.succ_eq_add_one, Nat.testBit_add_one]

/-! ## Division is linear -/

/-- One clock is linear. -/
theorem clock_xor (first second : BitVec w) :
    clock polynomial (first ^^^ second) =
      clock polynomial first ^^^ clock polynomial second := by
  -- the polynomial is added for each operand whose low bit is set, and twice is never
  have htwice : ∀ a b : BitVec w, (a ^^^ polynomial) ^^^ (b ^^^ polynomial) = a ^^^ b := by
    intro a b
    rw [BitVec.xor_comm b, BitVec.xor_assoc, ← BitVec.xor_assoc polynomial, BitVec.xor_self,
      BitVec.zero_xor]
  simp only [clock, feed, Bool.xor_false, BitVec.getLsbD_xor, BitVec.ushiftRight_xor_distrib]
  cases first.getLsbD 0 <;> cases second.getLsbD 0
  · rfl
  · exact BitVec.xor_assoc _ _ _
  · show first >>> 1 ^^^ second >>> 1 ^^^ polynomial = first >>> 1 ^^^ polynomial ^^^ second >>> 1
    rw [BitVec.xor_assoc, BitVec.xor_comm (second >>> 1), ← BitVec.xor_assoc]
  · exact (htwice _ _).symm

/-- Any number of clocks is linear. -/
theorem iterate_clock_xor (count : Nat) (first second : BitVec w) :
    (clock polynomial)^[count] (first ^^^ second) =
      (clock polynomial)^[count] first ^^^ (clock polynomial)^[count] second := by
  induction count generalizing first second with
  | zero => rfl
  | succ count ih =>
      rw [Function.iterate_succ_apply, clock_xor, ih]
      rfl

/-- While the low bits are clear the register only moves down. -/
theorem iterate_clock_of_clear (count : Nat) (register : BitVec w)
    (hclear : ∀ i < count, register.getLsbD i = false) :
    (clock polynomial)^[count] register = register >>> count := by
  induction count generalizing register with
  | zero => simp
  | succ count ih =>
      have hlow : clock polynomial register = register >>> 1 := by
        simp [clock, feed, hclear 0 (Nat.succ_pos count)]
      rw [Function.iterate_succ_apply, hlow, ih, ← BitVec.shiftRight_add, Nat.add_comm]
      intro i hi
      rw [BitVec.getLsbD_ushiftRight]
      exact hclear _ (by omega)

/-! ## Groups of bits -/

/-- Taking in a group of bits is adding it to the low end of the register and dividing. -/
theorem foldl_feed_lowBits {count value : Nat} (hcount : count ≤ w) (hvalue : value < 2 ^ count)
    (register : BitVec w) :
    (lowBits count value).foldl (feed polynomial) register =
      (clock polynomial)^[count] (register ^^^ BitVec.ofNat w value) := by
  induction count generalizing value register with
  | zero =>
      have hzero : value = 0 := by omega
      simp [hzero]
  | succ count ih =>
      have hhalf : value / 2 < 2 ^ count := by omega
      have hword : BitVec.ofNat w value >>> 1 = BitVec.ofNat w (value / 2) := by
        have hfits : value < 2 ^ w :=
          lt_of_lt_of_le hvalue (Nat.pow_le_pow_right (by omega) hcount)
        apply BitVec.eq_of_toNat_eq
        rw [BitVec.toNat_ushiftRight, BitVec.toNat_ofNat, BitVec.toNat_ofNat,
          Nat.mod_eq_of_lt hfits, Nat.mod_eq_of_lt (by omega), Nat.shiftRight_eq_div_pow]
      have hbit : (BitVec.ofNat w value).getLsbD 0 = value.testBit 0 := by
        rw [BitVec.getLsbD_ofNat]
        simp [show 0 < w by omega]
      have hfeed : feed polynomial register (value.testBit 0) ^^^ BitVec.ofNat w (value / 2) =
          clock polynomial (register ^^^ BitVec.ofNat w value) := by
        simp only [clock, feed, Bool.xor_false, BitVec.getLsbD_xor, hbit,
          BitVec.ushiftRight_xor_distrib, hword]
        split
        · rw [BitVec.xor_assoc, BitVec.xor_comm polynomial, ← BitVec.xor_assoc]
        · rfl
      rw [lowBits_succ, List.foldl_cons, ih (by omega) hhalf, hfeed,
        Function.iterate_succ_apply]

/-- Dividing a register is dividing its low bits and moving the others down. -/
theorem iterate_clock_split (count : Nat) (register : BitVec w) :
    (clock polynomial)^[count] register =
      (clock polynomial)^[count] (BitVec.ofNat w (register.toNat % 2 ^ count)) ^^^
        register >>> count := by
  have hsplit : register =
      BitVec.ofNat w (register.toNat % 2 ^ count) ^^^ (register >>> count) <<< count := by
    apply BitVec.eq_of_getLsbD_eq
    intro i hi
    simp only [BitVec.getLsbD_xor, BitVec.getLsbD_ofNat, Nat.testBit_mod_two_pow,
      BitVec.getLsbD_shiftLeft, BitVec.getLsbD_ushiftRight]
    by_cases hlow : i < count
    · simp [hi, hlow, BitVec.getLsbD]
    · simp [hi, hlow, Nat.add_sub_of_le (Nat.le_of_not_lt hlow)]
  have hhigh : (clock polynomial)^[count] ((register >>> count) <<< count) =
      register >>> count := by
    rw [iterate_clock_of_clear polynomial]
    · apply BitVec.eq_of_getLsbD_eq
      intro i hi
      simp only [BitVec.getLsbD_ushiftRight, BitVec.getLsbD_shiftLeft]
      by_cases hinside : count + i < w
      · simp [hinside]
      · simp [hinside, BitVec.getLsbD_of_ge register (count + i) (by omega)]
    · intro i hi
      simp [hi]
  conv_lhs => rw [hsplit]
  rw [iterate_clock_xor, hhigh]

/-- A table holds the remainder of each group of bits. -/
def Tabulates (table : List (BitVec w)) (count : Nat) : Prop :=
  ∀ group < 2 ^ count, table.getD group 0 = (clock polynomial)^[count] (BitVec.ofNat w group)

/-- `Tabulates` is decidable by comparing the entries. -/
instance (table : List (BitVec w)) (count : Nat) : Decidable (Tabulates polynomial table count) :=
  inferInstanceAs (Decidable (∀ group < 2 ^ count, _))

variable {polynomial}

/-- A table takes in a group of bits in one step. -/
theorem table_step {table : List (BitVec w)} {count value : Nat}
    (htable : Tabulates polynomial table count) (hcount : count ≤ w) (hvalue : value < 2 ^ count)
    (register : BitVec w) :
    table.getD ((register ^^^ BitVec.ofNat w value) &&& BitVec.ofNat w (2 ^ count - 1)).toNat 0 ^^^
        (register >>> count) =
      (lowBits count value).foldl (feed polynomial) register := by
  have hpow : 2 ^ count ≤ 2 ^ w := Nat.pow_le_pow_right (by omega) hcount
  have hindex : ((register ^^^ BitVec.ofNat w value) &&& BitVec.ofNat w (2 ^ count - 1)).toNat =
      (register ^^^ BitVec.ofNat w value).toNat % 2 ^ count := by
    have hpos := Nat.two_pow_pos count
    rw [BitVec.toNat_and, BitVec.toNat_ofNat (2 ^ count - 1), Nat.mod_eq_of_lt (by omega),
      Nat.and_two_pow_sub_one_eq_mod]
  have hmoved : (register ^^^ BitVec.ofNat w value) >>> count = register >>> count := by
    have hclear : BitVec.ofNat w value >>> count = 0#w := by
      apply BitVec.eq_of_toNat_eq
      rw [BitVec.toNat_ushiftRight, BitVec.toNat_ofNat, Nat.mod_eq_of_lt (by omega),
        Nat.shiftRight_eq_div_pow, Nat.div_eq_of_lt hvalue]
      rfl
    rw [BitVec.ushiftRight_xor_distrib, hclear, BitVec.xor_zero]
  rw [foldl_feed_lowBits polynomial hcount hvalue, iterate_clock_split, hindex, hmoved,
    htable _ (Nat.mod_lt _ (Nat.two_pow_pos count))]

/-- A loop that takes in each byte as the register does computes the check. -/
theorem foldl_eq_checksum {step : BitVec w → UInt8 → BitVec w}
    (hstep : ∀ register byte,
      step register byte = (lowBits 8 byte.toNat).foldl (feed polynomial) register)
    (bytes : List UInt8) :
    bytes.foldl step (BitVec.allOnes w) ^^^ BitVec.allOnes w = checksum polynomial bytes := by
  rw [checksum, List.foldl_flatMap]
  simp only [← hstep]

end KafkaJs.Data.ShiftRegister
