import Mathlib.Data.Int.Bitwise

/-!
# 64-bit integers

`utils/long.js` wraps a `BigInt`, whose operations do not overflow: only `toInt`, `fromInt`,
`getHighBits` and `getLowBits` cut to a width. A `Long` is therefore an integer here. Both right
shifts are arithmetic.
-/

namespace KafkaJs.Long

/-- `BigInt.asIntN`: the low bits of a value in two's complement. -/
def asIntN (width : Nat) (value : Int) : Int := value.bmod (2 ^ width)

/-- `fromInt`. -/
def fromInt (value : Int) : Int := asIntN 64 value

/-- `toInt`. -/
def toInt (value : Int) : Int := asIntN 32 value

/-- `shiftLeft`. -/
def shiftLeft (value : Int) (numBits : Nat) : Int := value * 2 ^ numBits

/-- `shiftRight`: the sign is kept. -/
def shiftRight (value : Int) (numBits : Nat) : Int := value / 2 ^ numBits

/-- `shiftRightUnsigned`: on a `BigInt` there is no unsigned shift, the sign is kept here too. -/
def shiftRightUnsigned (value : Int) (numBits : Nat) : Int := value / 2 ^ numBits

/-- `and`. -/
def and (value other : Int) : Int := Int.land value other

/-- `or`. -/
def or (value other : Int) : Int := Int.lor value other

/-- `xor`. -/
def xor (value other : Int) : Int := Int.xor value other

/-- `multiply`: a zero is returned as it is. -/
def multiply (value multiplier : Int) : Int := if value = 0 then 0 else value * multiplier

/-- `Long.MIN_VALUE`. -/
def minValue : Int := -9223372036854775808

/-- `negate`. -/
def negate (value : Int) : Int := if value = minValue then minValue else Int.not value + 1

/-- `getHighBits`. -/
def getHighBits (value : Int) : Int := asIntN 32 (shiftRight value 32)

/-- `getLowBits`. -/
def getLowBits (value : Int) : Int := asIntN 32 value

/-- Exclusive or with minus one flips every bit. -/
theorem xor_neg_one (value : Int) : xor value (-1) = -value - 1 := by
  cases value with
  | ofNat n =>
      show Int.negSucc (n ^^^ 0) = -(n : Int) - 1
      rw [Nat.xor_zero]
      omega
  | negSucc n =>
      show ((n ^^^ 0 : Nat) : Int) = -Int.negSucc n - 1
      rw [Nat.xor_zero]
      omega

/-- Exclusive or with zero changes nothing. -/
theorem xor_zero (value : Int) : xor value 0 = value := by
  cases value with
  | ofNat n =>
      show ((n ^^^ 0 : Nat) : Int) = n
      rw [Nat.xor_zero]
  | negSucc n =>
      show Int.negSucc (n ^^^ 0) = Int.negSucc n
      rw [Nat.xor_zero]

/-- The short cut for zero does not change the product. -/
theorem multiply_eq (value multiplier : Int) : multiply value multiplier = value * multiplier := by
  unfold multiply
  split
  · next hzero => rw [hzero, Int.zero_mul]
  · rfl

/-- On values that are not negative, `and` is that of natural numbers. -/
theorem and_natCast (first second : Nat) : and first second = (first &&& second : Nat) := rfl

/-- A cut to a width keeps the values that fit. -/
theorem asIntN_of_bounds {width : Nat} {value : Int} (hlower : 0 ≤ value)
    (hupper : value < 2 ^ width / 2) : asIntN width value = value := by
  have hcast : ((2 ^ width : Nat) : Int) = 2 ^ width := Nat.cast_pow 2 width
  exact Int.bmod_eq_of_le (by omega) (by omega)

end KafkaJs.Long
