import KafkaJs.Utils.Number

/-!
# Rounding

Which integers are rounded to a given one by `Number.ofInt`, and when the difference of two integers
that have been rounded is rounded to their difference (`ofInt_sub_iff`). The doubles are evenly
spaced between two powers of two, and the distance of two neighbours doubles at a power of two, so a
value has different distances to its neighbours there.
-/

namespace KafkaJs.Number

/-- The distance of the doubles at a value: one up to `2 ^ 53`, and twice as much with every further
bit. -/
def spacing (value : Int) : Nat := 2 ^ (value.natAbs.log2 - 52)

/-- A value that is a double and is off by an error is rounded back to it: the error is at most half
the distance to the next double on its side, and where it is exactly half the value is even. -/
def Absorbs (value error : Int) : Prop :=
  (spacing value : Int) ∣ value ∧ 2 * error ≤ spacing value ∧ -spacing (value - 1) ≤ 2 * error ∧
    (2 * error = spacing value ∨ 2 * error = -spacing (value - 1) →
      value / spacing value % 2 = 0)

/-- `Absorbs` is decidable by integer comparisons. -/
instance (value error : Int) : Decidable (Absorbs value error) :=
  inferInstanceAs (Decidable (_ ∧ _ ∧ _ ∧ (_ → _)))

/-- By how much an integer changes as a number. -/
def roundingError (value : Int) : Int := ofInt value - value

/-- The nearest multiple, told by its properties. -/
theorem roundAt_eq_iff {shift magnitude value : Nat} :
    roundAt shift magnitude = value ↔
      2 ^ shift ∣ value ∧ 2 * magnitude ≤ 2 * value + 2 ^ shift ∧
        2 * value ≤ 2 * magnitude + 2 ^ shift ∧
        (2 * magnitude = 2 * value + 2 ^ shift ∨ 2 * value = 2 * magnitude + 2 ^ shift →
          value / 2 ^ shift % 2 = 0) := by
  have hpos : 0 < 2 ^ shift := Nat.two_pow_pos shift
  have hdivision := Nat.div_add_mod magnitude (2 ^ shift)
  have hremainder := Nat.mod_lt magnitude hpos
  unfold roundAt
  dsimp only
  generalize 2 ^ shift = g at *
  generalize magnitude / g = q at *
  generalize magnitude % g = r at *
  subst hdivision
  have hsucc : g * (q + 1) = g * q + g := Nat.mul_succ g q
  constructor
  · intro h
    split at h
    · next hup =>
        rw [← h, Nat.mul_comm (q + 1) g]
        refine ⟨Nat.dvd_mul_right _ _, by omega, by omega, fun htie => ?_⟩
        rw [Nat.mul_div_cancel_left _ hpos]
        omega
    · next hdown =>
        rw [← h, Nat.mul_comm q g]
        refine ⟨Nat.dvd_mul_right _ _, by omega, by omega, fun htie => ?_⟩
        rw [Nat.mul_div_cancel_left _ hpos]
        omega
  · rintro ⟨⟨t, rfl⟩, hlower, hupper, htie⟩
    rw [Nat.mul_div_cancel_left _ hpos] at htie
    -- the multiple is one of the two around the value
    have hle : t < q + 2 := by
      by_contra hge
      have hmul := Nat.mul_le_mul_left g (show q + 2 ≤ t by omega)
      rw [Nat.mul_add] at hmul
      omega
    have hge : q ≤ t := by
      by_contra hlt
      have hmul := Nat.mul_le_mul_left g (show t + 1 ≤ q by omega)
      rw [Nat.mul_add] at hmul
      omega
    obtain rfl | rfl : t = q ∨ t = q + 1 := by omega
    · rw [if_neg (by omega), Nat.mul_comm]
    · rw [hsucc] at hlower hupper htie
      rw [if_pos (by omega), Nat.mul_comm]

/-- Multiples of the same number are at least that far from each other. -/
theorem add_le_of_dvd {step first second : Nat} (hfirst : step ∣ first) (hsecond : step ∣ second)
    (h : first < second) : first + step ≤ second := by
  have hle := Nat.le_of_dvd (by omega) (Nat.dvd_sub hsecond hfirst)
  omega

/-- Doubles are never zero apart. -/
theorem spacing_pos (value : Int) : 0 < spacing value := Nat.two_pow_pos _

/-- Two values have the same distance of doubles around them, or a power of two lies between them,
which is an even double for either distance. -/
theorem spacing_eq_or {first second : Nat} (h : first ≤ second) :
    spacing first = spacing second ∨
      ∃ power, first < power ∧ power ≤ second ∧ 2 * spacing first ∣ power ∧
        2 * spacing second ∣ power := by
  have hmono : first.log2 ≤ second.log2 := by
    rw [Nat.log2_eq_log_two, Nat.log2_eq_log_two]
    exact Nat.log_mono_right h
  unfold spacing
  rw [Int.natAbs_natCast, Int.natAbs_natCast]
  by_cases hsame : first.log2 - 52 = second.log2 - 52
  · exact Or.inl (by rw [hsame])
  · have hsecond : second ≠ 0 := by
      rintro rfl
      exact hsame (by rw [Nat.le_zero.mp h])
    have hdvd : ∀ shift, shift < second.log2 → 2 * 2 ^ shift ∣ 2 ^ second.log2 := by
      intro shift hshift
      rw [← Nat.pow_succ']
      exact Nat.pow_dvd_pow 2 hshift
    refine Or.inr ⟨2 ^ second.log2, ?_, Nat.log2_self_le hsecond, hdvd _ (by omega),
      hdvd _ (by omega)⟩
    by_cases hfirst : first = 0
    · rw [hfirst]
      exact Nat.two_pow_pos _
    · exact (Nat.log2_lt hfirst).mp (by omega)

/-- A multiple of the double step is a multiple of the step. -/
theorem dvd_of_double {step value : Nat} (h : 2 * step ∣ value) : step ∣ value :=
  Nat.dvd_trans (Nat.dvd_mul_left step 2) h

/-- A multiple of the double step is an even number of steps. -/
theorem even_div_of_dvd {step value : Nat} (hstep : 0 < step) (h : 2 * step ∣ value) :
    value / step % 2 = 0 := by
  obtain ⟨count, rfl⟩ := h
  rw [Nat.mul_comm 2 step, Nat.mul_assoc, Nat.mul_div_cancel_left _ hstep]
  omega

/-- A natural number is rounded at its leading 53 bits. -/
theorem ofInt_natCast (magnitude : Nat) :
    ofInt magnitude = roundAt (magnitude.log2 - 52) magnitude := by
  rw [ofInt, Int.natAbs_natCast]
  cases magnitude with
  | zero => rfl
  | succ n => rw [Int.sign_natCast_of_ne_zero (Nat.succ_ne_zero n), Int.one_mul]

/-- A positive value absorbs an error exactly when it is a double, the sum lies within half a
spacing of it on either side, and a tie falls on an even significand. -/
theorem absorbs_natCast {value magnitude : Nat} :
    Absorbs value ((magnitude : Int) - value) ↔
      spacing value ∣ value ∧ 2 * magnitude ≤ 2 * value + spacing value ∧
        2 * value ≤ 2 * magnitude + spacing ((value : Int) - 1) ∧
        (2 * magnitude = 2 * value + spacing value ∨
            2 * value = 2 * magnitude + spacing ((value : Int) - 1) →
          value / spacing value % 2 = 0) := by
  have heven : ((value : Int) / spacing value % 2 = 0) ↔ value / spacing value % 2 = 0 := by
    rw [← Int.natCast_ediv]
    omega
  rw [Absorbs, Int.natCast_dvd_natCast, heven]
  refine and_congr_right fun _ => and_congr ?_ (and_congr ?_ (imp_congr (or_congr ?_ ?_) Iff.rfl))
  all_goals omega

/-- Which numbers are rounded to a value: those that it absorbs. -/
theorem ofInt_eq_iff {value magnitude : Nat} :
    ofInt magnitude = value ↔ Absorbs value ((magnitude : Int) - value) := by
  rw [ofInt_natCast, Int.natCast_inj, roundAt_eq_iff, absorbs_natCast]
  have hstep : 2 ^ (magnitude.log2 - 52) = spacing magnitude := by
    rw [spacing, Int.natAbs_natCast]
  rw [hstep]
  have hpos := spacing_pos magnitude
  have hposValue := spacing_pos value
  rcases Nat.lt_trichotomy magnitude value with hlt | rfl | hlt
  · obtain ⟨pred, rfl⟩ := Nat.exists_eq_add_of_le' (show 1 ≤ value by omega)
    rw [show ((pred + 1 : Nat) : Int) - 1 = pred by omega]
    have hposPred := spacing_pos pred
    -- a multiple of the distance at the value is one of the distance below it
    have hbelow : spacing pred = spacing (pred + 1 : Nat) ∨
        2 * spacing pred ∣ pred + 1 ∧ 2 * spacing (pred + 1 : Nat) ∣ pred + 1 := by
      rcases spacing_eq_or (Nat.le_succ pred) with hsame | ⟨power, hlower, hupper, hpred, hvalue⟩
      · exact Or.inl hsame
      · obtain rfl : power = pred + 1 := by omega
        exact Or.inr ⟨hpred, hvalue⟩
    rcases spacing_eq_or (show magnitude ≤ pred by omega) with hsame | ⟨power, hlower, hupper,
      hmagnitude, hpred⟩
    · rw [hsame]
      rcases hbelow with hequal | ⟨hdvdPred, hdvdValue⟩
      · rw [← hequal]
      · have heven := even_div_of_dvd hposPred hdvdPred
        have hevenValue := even_div_of_dvd hposValue hdvdValue
        have hdvd := dvd_of_double hdvdPred
        have hdvd' := dvd_of_double hdvdValue
        constructor
        · rintro ⟨_, _, hle, _⟩
          exact ⟨hdvd', by omega, hle, fun _ => hevenValue⟩
        · rintro ⟨_, _, hle, _⟩
          exact ⟨hdvd, by omega, hle, fun _ => heven⟩
    · -- the magnitude is too far off
      constructor
      · rintro ⟨hdvd, _, hle, _⟩
        have hfar := add_le_of_dvd (dvd_of_double hmagnitude) hdvd (by omega)
        omega
      · rintro ⟨hdvd, _, hle, _⟩
        have hdvdPred : spacing pred ∣ pred + 1 := by
          rcases hbelow with hequal | ⟨hdvdPred, _⟩
          · rwa [hequal]
          · exact dvd_of_double hdvdPred
        have hfar := add_le_of_dvd (dvd_of_double hpred) hdvdPred (by omega)
        omega
  · have hposBelow := spacing_pos ((magnitude : Int) - 1)
    omega
  · have hposBelow := spacing_pos ((value : Int) - 1)
    rcases spacing_eq_or hlt.le with hsame | ⟨power, hlower, hupper, hvalue, hmagnitude⟩
    · rw [hsame]
      omega
    · constructor
      · rintro ⟨hdvd, hle, _, _⟩
        have hfar := add_le_of_dvd hdvd (dvd_of_double hmagnitude) (by omega)
        omega
      · rintro ⟨hdvd, hle, _, _⟩
        have hfar := add_le_of_dvd hdvd (dvd_of_double hvalue) (by omega)
        omega

/-- The spacing of doubles around a natural number is at most its successor. -/
theorem spacing_le (value : Nat) : spacing value ≤ value + 1 := by
  by_cases hzero : value = 0
  · rw [hzero]
    decide
  · have hself := Nat.log2_self_le hzero
    have hpow : 2 ^ (value.log2 - 52) ≤ 2 ^ value.log2 :=
      Nat.pow_le_pow_right (by decide) (Nat.sub_le _ _)
    rw [spacing, Int.natAbs_natCast]
    omega

/-- Rounding a negative integer never makes it positive. -/
theorem ofInt_nonpos {value : Int} (h : value < 0) : ofInt value ≤ 0 := by
  rw [ofInt, Int.sign_eq_neg_one_of_neg h]
  omega

/-- The difference of two integers, taken on numbers, is exact exactly if it absorbs the difference
of their rounding errors. -/
theorem ofInt_sub_iff {first second : Int} (h : second ≤ first) :
    ofInt (ofInt first - ofInt second) = first - second ↔
      Absorbs (first - second) (roundingError first - roundingError second) := by
  obtain ⟨value, hvalue⟩ := Int.eq_ofNat_of_zero_le (Int.sub_nonneg_of_le h)
  have herror : roundingError first - roundingError second =
      ofInt first - ofInt second - value := by
    unfold roundingError
    omega
  rw [herror, hvalue]
  by_cases hsign : 0 ≤ ofInt first - ofInt second
  · obtain ⟨magnitude, hmagnitude⟩ := Int.eq_ofNat_of_zero_le hsign
    rw [hmagnitude]
    exact ofInt_eq_iff
  · -- a negative difference is neither rounded to the value nor absorbed by it
    have hpositive : value ≠ 0 := by
      rintro rfl
      obtain rfl : first = second := by omega
      omega
    have hrounded := ofInt_nonpos (Int.not_le.mp hsign)
    obtain ⟨pred, rfl⟩ := Nat.exists_eq_add_of_le' (Nat.one_le_iff_ne_zero.mpr hpositive)
    have hstep := spacing_le pred
    constructor
    · intro hequal
      omega
    · rintro ⟨_, _, hbelow, _⟩
      rw [show ((pred + 1 : Nat) : Int) - 1 = pred by omega] at hbelow
      omega

/-- Below `2 ^ 53` no integer changes. -/
theorem roundingError_of_lt {value : Int} (h : value.natAbs < 2 ^ 53) :
    roundingError value = 0 := by
  rw [roundingError, ofInt_of_lt h, Int.sub_self]

end KafkaJs.Number
