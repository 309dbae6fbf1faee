import KafkaJs.Data.Utf8
import Mathlib.Data.List.Sort
import Mathlib.Data.List.TakeWhile
import Mathlib.Data.Nat.Log

/-!
# Numbers

An integer as a JavaScript `Number`: the nearest integer that a double represents. Only the
rounding matters here, the range of a double is never left. `sort` is the sort of an array of
numbers without a comparison, which goes by their decimal notation. `parseInt` reads the number at
the beginning of a text.
-/

namespace KafkaJs.Number

/-- The nearest multiple of `2 ^ shift`, the even one of two that are equally near. -/
def roundAt (shift magnitude : Nat) : Nat :=
  let quotient := magnitude / 2 ^ shift
  let remainder := magnitude % 2 ^ shift
  if 2 ^ shift < 2 * remainder ∨ 2 * remainder = 2 ^ shift ∧ quotient % 2 = 1 then
    (quotient + 1) * 2 ^ shift
  else quotient * 2 ^ shift

/-- `Number(value)`: 53 bits are kept. -/
def ofInt (value : Int) : Int :=
  value.sign * roundAt (value.natAbs.log2 - 52) value.natAbs

example : ofInt (2 ^ 53 + 1) = 2 ^ 53 := by decide

example : ofInt (-7) = -7 := by decide

/-- `Array.prototype.sort` without a comparison. -/
def sort (values : List Int) : List Int :=
  values.insertionSort fun first second => toString first ≤ toString second

/-- White space and line terminators. -/
def isWhiteSpace (unit : UInt16) : Bool :=
  (0x09 ≤ unit ∧ unit ≤ 0x0D) ∨ (0x2000 ≤ unit ∧ unit ≤ 0x200A) ∨
    unit ∈ [0x20, 0xA0, 0x1680, 0x2028, 0x2029, 0x202F, 0x205F, 0x3000, 0xFEFF]

/-- A digit of the decimal notation. -/
def isDigit (unit : UInt16) : Bool := 0x30 ≤ unit ∧ unit ≤ 0x39

/-- The number with the given digits. -/
def ofDigits (digits : Data.Text) : Nat :=
  digits.foldl (fun value unit => 10 * value + (unit.toNat - 0x30)) 0

/-- The number that the digits at the beginning denote, `none` for `NaN` if there are none. -/
def ofLeadingDigits (text : Data.Text) : Option Nat :=
  let digits := text.takeWhile isDigit
  if digits = [] then none else some (ofDigits digits)

/-- `parseInt(text, 10)`: white space in front of the number and anything behind it are ignored.
The result is the exact number, which a double may round. -/
def parseInt (text : Data.Text) : Option Int :=
  match text.dropWhile isWhiteSpace with
  | [] => none
  | sign :: rest =>
      if sign = 0x2D then (ofLeadingDigits rest).map fun value => -(value : Int)
      else if sign = 0x2B then (ofLeadingDigits rest).map Nat.cast
      else (ofLeadingDigits (sign :: rest)).map Nat.cast

example : parseInt (Data.Text.ofString " -12,5") = some (-12) := by decide

/-- Rounding at the lowest bit changes nothing. -/
theorem roundAt_zero (magnitude : Nat) : roundAt 0 magnitude = magnitude := by
  unfold roundAt
  dsimp only
  rw [if_neg (by omega)]
  omega

/-- Of an integer below `2 ^ 53` all bits are kept. -/
theorem ofInt_of_lt {value : Int} (h : value.natAbs < 2 ^ 53) : ofInt value = value := by
  have hshift : value.natAbs.log2 - 52 = 0 := by
    by_cases hzero : value.natAbs = 0
    · rw [hzero]
      rfl
    · have hlog := (Nat.log2_lt hzero).mpr h
      omega
  rw [ofInt, hshift, roundAt_zero, Int.sign_mul_natAbs]

/-- Sorting keeps the numbers. -/
theorem sort_perm (values : List Int) : (sort values).Perm values :=
  List.perm_insertionSort _ values

/-- Sorted numbers stand in the order of their texts. -/
theorem sort_pairwise (values : List Int) :
    (sort values).Pairwise fun first second => toString first ≤ toString second :=
  have : Std.Total fun first second : Int => toString first ≤ toString second :=
    ⟨fun first second => String.le_total (toString first) (toString second)⟩
  have : IsTrans Int fun first second => toString first ≤ toString second :=
    ⟨fun _ _ _ => String.le_trans⟩
  List.pairwise_insertionSort _ values

/-- The last value of a sorted array is that of the greatest notation. -/
theorem le_getLast_sort {values : List Int} {last : Int} (h : last ∈ (sort values).getLast?) :
    last ∈ values ∧ ∀ value ∈ values, toString value ≤ toString last := by
  obtain ⟨rest, hrest⟩ := List.getLast?_eq_some_iff.mp h
  have hmem : ∀ value, value ∈ values ↔ value ∈ rest ++ [last] := fun value => by
    rw [← hrest, (sort_perm values).mem_iff]
  have hsorted := sort_pairwise values
  rw [hrest, List.pairwise_append] at hsorted
  refine ⟨(hmem last).mpr (List.mem_append_right rest (List.mem_singleton_self last)), ?_⟩
  intro value hvalue
  rcases List.mem_append.mp ((hmem value).mp hvalue) with hbefore | hsame
  · exact hsorted.2.2 value hbefore last (List.mem_singleton_self last)
  · have hlast : value = last := List.mem_singleton.mp hsame
    subst hlast
    exact String.le_refl _

/-- Different natural numbers have different notations. -/
theorem toString_inj {first second : Int} (hfirst : 0 ≤ first) (hsecond : 0 ≤ second)
    (h : toString first = toString second) : first = second := by
  obtain ⟨n, rfl⟩ := Int.eq_ofNat_of_zero_le hfirst
  obtain ⟨m, rfl⟩ := Int.eq_ofNat_of_zero_le hsecond
  have hdigits : Nat.toDigits 10 n = Nat.toDigits 10 m := by
    rw [← Nat.toList_repr, ← Nat.toList_repr]
    exact congrArg String.toList h
  rw [← @Nat.ofDigitChars_ten_toDigits n, hdigits, Nat.ofDigitChars_ten_toDigits]

/-- A digit is neither white space nor a sign. -/
theorem not_isWhiteSpace_of_isDigit {unit : UInt16} (h : isDigit unit = true) :
    isWhiteSpace unit = false ∧ unit ≠ 0x2D ∧ unit ≠ 0x2B := by
  obtain ⟨hlower, hupper⟩ := of_decide_eq_true h
  simp only [UInt16.le_iff_toNat_le, UInt16.reduceToNat] at hlower hupper
  simp only [isWhiteSpace, UInt16.le_iff_toNat_le, ← UInt16.toNat_inj, UInt16.reduceToNat,
    List.mem_cons, List.not_mem_nil, or_false, decide_eq_false_iff_not, ne_eq]
  omega

/-- Digits alone are read as the number that they denote. -/
theorem parseInt_digits {digits : Data.Text} (hne : digits ≠ [])
    (h : ∀ unit ∈ digits, isDigit unit = true) :
    parseInt digits = some (ofDigits digits : Int) := by
  cases digits with
  | nil => exact absurd rfl hne
  | cons unit digits =>
      obtain ⟨hspace, hminus, hplus⟩ := not_isWhiteSpace_of_isDigit (h unit List.mem_cons_self)
      have hdrop : (unit :: digits).dropWhile isWhiteSpace = unit :: digits := by
        rw [List.dropWhile_cons, hspace]
        rfl
      rw [parseInt, hdrop]
      show (if unit = 0x2D then _ else if unit = 0x2B then _ else _) = _
      rw [if_neg hminus, if_neg hplus, ofLeadingDigits, List.takeWhile_eq_self_iff.mpr h]
      rfl

end KafkaJs.Number
