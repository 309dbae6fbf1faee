import Mathlib.Data.BitVec
import Mathlib.Data.Int.Bitwise

/-!
# Words of a fixed width

Reducing an integer to a word, `BitVec.ofInt w`, commutes with addition, multiplication and, by
`ofInt_xor`, with the exclusive or of two's complement. A computation made of these may therefore
be reduced at every step or once at the end.

The second section holds the bit operators of JavaScript on numbers: they convert their operands
to 32 bits first and give a signed result, except for `>>>`, which gives an unsigned one.
-/

namespace KafkaJs.Data

/-- Exclusive or of integers is that of their words. -/
theorem ofInt_xor (w : Nat) (first second : Int) :
    BitVec.ofInt w (Int.xor first second) = BitVec.ofInt w first ^^^ BitVec.ofInt w second := by
  cases first with
  | ofNat m =>
      cases second with
      | ofNat n =>
          show BitVec.ofInt w ((m ^^^ n : Nat) : Int) =
            BitVec.ofInt w (m : Int) ^^^ BitVec.ofInt w (n : Int)
          simp only [BitVec.ofInt_natCast, BitVec.ofNat_xor]
      | negSucc n =>
          show BitVec.ofInt w (Int.negSucc (m ^^^ n)) =
            BitVec.ofInt w (m : Int) ^^^ BitVec.ofInt w (Int.negSucc n)
          simp only [BitVec.ofInt_natCast, BitVec.ofInt_negSucc_eq_not_ofNat, BitVec.ofNat_xor]
          ext i hi
          simp
  | negSucc m =>
      cases second with
      | ofNat n =>
          show BitVec.ofInt w (Int.negSucc (m ^^^ n)) =
            BitVec.ofInt w (Int.negSucc m) ^^^ BitVec.ofInt w (n : Int)
          simp only [BitVec.ofInt_natCast, BitVec.ofInt_negSucc_eq_not_ofNat, BitVec.ofNat_xor]
          ext i hi
          simp
      | negSucc n =>
          show BitVec.ofInt w ((m ^^^ n : Nat) : Int) =
            BitVec.ofInt w (Int.negSucc m) ^^^ BitVec.ofInt w (Int.negSucc n)
          simp only [BitVec.ofInt_natCast, BitVec.ofInt_negSucc_eq_not_ofNat, BitVec.ofNat_xor]
          ext i hi
          simp

/-! ## Bit operators on numbers -/

/-- `first & second`. -/
def bitAnd (first second : Int) : Int :=
  (BitVec.ofInt 32 first &&& BitVec.ofInt 32 second).toInt

/-- `~value`. -/
def bitNot (value : Int) : Int := (~~~BitVec.ofInt 32 value).toInt

/-- `value << count`, for a count below 32. -/
def shiftLeft (value : Int) (count : Nat) : Int := (BitVec.ofInt 32 value <<< count).toInt

/-- `value >>> count`, for a count below 32. -/
def unsignedShiftRight (value : Int) (count : Nat) : Int :=
  (BitVec.ofInt 32 value >>> count).toNat

/-- The code's `&` is the conjunction of the 32-bit words. -/
@[simp] theorem ofInt_bitAnd (first second : Int) :
    BitVec.ofInt 32 (bitAnd first second) = BitVec.ofInt 32 first &&& BitVec.ofInt 32 second :=
  BitVec.ofInt_toInt

/-- The code's `~` is the complement of the 32-bit word. -/
@[simp] theorem ofInt_bitNot (value : Int) :
    BitVec.ofInt 32 (bitNot value) = ~~~BitVec.ofInt 32 value :=
  BitVec.ofInt_toInt

/-- The code's `<<` shifts the 32-bit word to the left. -/
@[simp] theorem ofInt_shiftLeft (value : Int) (count : Nat) :
    BitVec.ofInt 32 (shiftLeft value count) = BitVec.ofInt 32 value <<< count :=
  BitVec.ofInt_toInt

/-- The code's `>>>` shifts the 32-bit word to the right. -/
@[simp] theorem ofInt_unsignedShiftRight (value : Int) (count : Nat) :
    BitVec.ofInt 32 (unsignedShiftRight value count) = BitVec.ofInt 32 value >>> count := by
  rw [unsignedShiftRight, BitVec.ofInt_natCast, BitVec.ofNat_toNat, BitVec.setWidth_eq]

/-- Clearing the low bits is a shift to the right and back. -/
theorem and_not_mask {w : Nat} (word mask : BitVec w) (count : Nat)
    (hmask : ∀ position < w, mask.getLsbD position = decide (position < count)) :
    word &&& ~~~mask = word >>> count <<< count := by
  ext position hposition
  rw [BitVec.getElem_and, BitVec.getElem_not, ← BitVec.getLsbD_eq_getElem (x := mask),
    hmask position hposition, BitVec.getElem_shiftLeft]
  by_cases hlow : position < count
  · simp [hlow]
  · have hback : count + (position - count) = position := by omega
    simp [hlow, hback, BitVec.getLsbD_eq_getElem, hposition]

/-- Clearing the two low bits rounds down to a multiple of four. -/
theorem toNat_and_not_three (word : BitVec 32) :
    (word &&& ~~~3#32).toNat = 4 * (word.toNat / 4) := by
  have hlt := word.isLt
  rw [and_not_mask word 3#32 2 (by decide), BitVec.toNat_shiftLeft,
    BitVec.toNat_ushiftRight, Nat.shiftLeft_eq, Nat.shiftRight_eq_div_pow]
  omega

/-- Clearing the two low bits of a length rounds it down to a multiple of four. -/
theorem bitAnd_bitNot_three {length : Nat} (hlength : length < 2 ^ 31) :
    bitAnd length (bitNot 3) = (4 * (length / 4) : Nat) := by
  have hword : (BitVec.ofInt 32 (length : Int)).toNat = length := by
    rw [BitVec.ofInt_natCast, BitVec.toNat_ofNat]
    omega
  have hclear : (BitVec.ofInt 32 (length : Int) &&& ~~~3#32).toNat = 4 * (length / 4) := by
    rw [toNat_and_not_three, hword]
  rw [bitAnd, ofInt_bitNot, BitVec.toInt_eq_toNat_of_lt]
  · exact congrArg Nat.cast hclear
  · show 2 * (BitVec.ofInt 32 (length : Int) &&& ~~~3#32).toNat < 2 ^ 32
    omega

end KafkaJs.Data
