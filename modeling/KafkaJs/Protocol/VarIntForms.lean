import KafkaJs.Protocol.TaggedFields

/-!
# Varints in their shortest form

The writers emit the shortest base 128 form of the zigzag image, within five and ten bytes. The
readers stop after as many. `readUVarInt` cuts what it reads to 32 bits, while `readVarLong` adds
up unbounded integers: a tenth byte may carry it past 64 bits, `Overlong`.
-/

namespace KafkaJs.Protocol

open Data

/-! ## Base 128 forms -/

/-- The shortest base 128 form of a number. -/
structure ShortestForm (bytes : Bytes) (n : Nat) : Prop where
  /-- The top bit is set on every byte but the last. -/
  terminated : Terminated bytes
  value : ofDigits bytes = n
  /-- The last group is not zero, unless it is the only one. -/
  noTrailingZero : 1 < bytes.length → bytes.getLast? ≠ some 0
  shortest : ∀ other, Terminated other → ofDigits other = n → bytes.length ≤ other.length

/-- The value of digits is bounded by their number. -/
theorem ofDigits_lt (bytes : Bytes) : ofDigits bytes < 128 ^ bytes.length := by
  induction bytes with
  | nil => exact Nat.one_pos
  | cons byte bytes ih =>
      rw [ofDigits, List.length_cons, Nat.pow_succ]
      omega

/-- A byte in front keeps the last one. -/
theorem Terminated.getLast?_cons {bytes : Bytes} (h : Terminated bytes) (byte : UInt8) :
    (byte :: bytes).getLast? = bytes.getLast? := by
  cases h with
  | last => rfl
  | more => rfl

/-- A last group that is not zero makes the number as large as the groups before it allow. -/
theorem Terminated.le_ofDigits {bytes : Bytes} (h : Terminated bytes)
    (hlast : bytes.getLast? ≠ some 0) : 128 ^ (bytes.length - 1) ≤ ofDigits bytes := by
  induction h with
  | @last byte hbyte =>
      have hpos : byte.toNat ≠ 0 := by
        intro hzero
        exact hlast (congrArg some (UInt8.toNat_inj.mp hzero))
      show 1 ≤ byte.toNat % 128 + 128 * 0
      omega
  | @more byte bytes hbyte hrest ih =>
      rw [hrest.getLast?_cons] at hlast
      have hlength := hrest.length_pos
      have hih := ih hlast
      have hpow : 128 ^ bytes.length = 128 * 128 ^ (bytes.length - 1) := by
        rw [← Nat.pow_succ', Nat.succ_eq_add_one, Nat.sub_add_cancel hlength]
      rw [List.length_cons, Nat.add_sub_cancel, hpow, ofDigits]
      omega

/-- Without a trailing zero group a form is the shortest. -/
theorem Terminated.shortestForm {bytes : Bytes} (h : Terminated bytes)
    (hlast : 1 < bytes.length → bytes.getLast? ≠ some 0) :
    ShortestForm bytes (ofDigits bytes) := by
  refine ⟨h, rfl, hlast, ?_⟩
  intro other hother hvalue
  have hpos := hother.length_pos
  by_cases hone : 1 < bytes.length
  · have hle := h.le_ofDigits (hlast hone)
    have hlt := ofDigits_lt other
    rw [hvalue] at hlt
    have hpow := (Nat.pow_lt_pow_iff_right (by decide)).mp (lt_of_le_of_lt hle hlt)
    omega
  · omega

/-- A form that begins another one is that form. -/
theorem Terminated.eq_of_prefix {first second : Bytes} (hfirst : Terminated first)
    (hsecond : Terminated second) (h : first <+: second) : first = second := by
  induction hfirst generalizing second with
  | @last byte hbyte =>
      obtain ⟨rest, rfl⟩ := h
      cases hsecond with
      | last => rfl
      | more hmore => omega
  | @more byte bytes hbyte hrest ih =>
      cases hsecond with
      | @last other hother =>
          obtain ⟨rfl, -⟩ := List.cons_prefix_cons.mp h
          omega
      | more _ hother =>
          obtain ⟨rfl, hprefix⟩ := List.cons_prefix_cons.mp h
          rw [ih hother hprefix]

/-- The notation of a number in groups is its shortest form. -/
theorem shortestForm_groups {fuel n : Nat} (hfuel : n ≤ fuel) :
    ShortestForm (groups fuel n) n := by
  have hgroups : Terminated (groups fuel n) ∧ ofDigits (groups fuel n) = n ∧
      (n ≠ 0 → (groups fuel n).getLast? ≠ some 0) := by
    induction fuel generalizing n with
    | zero =>
        have hzero : n = 0 := by omega
        subst hzero
        exact ⟨.last (by decide), rfl, fun h => absurd rfl h⟩
    | succ fuel ih =>
        unfold groups
        split
        · next hsmall =>
            have hbyte : (UInt8.ofNat n).toNat = n := Text.toNat_ofNat_byte (by omega)
            refine ⟨.last (by omega), ?_, ?_⟩
            · show (UInt8.ofNat n).toNat % 128 + 128 * 0 = n
              omega
            · intro hne hlast
              have hzero : (UInt8.ofNat n).toNat = 0 :=
                congrArg UInt8.toNat (Option.some.inj hlast)
              omega
        · next hlarge =>
            obtain ⟨hterminated, hvalue, hlast⟩ := @ih (n / 128) (by omega)
            have hbyte := toNat_continuation n
            refine ⟨.more (by omega) hterminated, ?_, ?_⟩
            · rw [ofDigits, hvalue, hbyte]
              omega
            · intro _
              rw [hterminated.getLast?_cons]
              exact hlast (by omega)
  obtain ⟨hterminated, hvalue, hlast⟩ := hgroups
  have hform := hterminated.shortestForm fun hlength => hlast fun hzero => by
    subst hzero
    cases fuel <;> simp [groups] at hlength
  rwa [hvalue] at hform

/-! ## The writers -/

/-- The zigzag image: the integers in the order 0, -1, 1, -2, and so on. -/
def zigZag (value : Int) : Nat :=
  if 0 ≤ value then (2 * value).toNat else (-(2 * value) - 1).toNat

/-- Zigzag maps no two numbers to one. -/
theorem zigZag_inj {first second : Int} (h : zigZag first = zigZag second) : first = second := by
  unfold zigZag at h
  split at h <;> split at h <;> omega

/-- On 32-bit integers the shifts compute the zigzag image. -/
theorem toNat_encodeZigZag {value : Int} (hlower : -2 ^ 31 ≤ value) (hupper : value < 2 ^ 31) :
    (encodeZigZag value).toNat = zigZag value := by
  have hword : (BitVec.ofInt 32 value).toNat = (value % 2 ^ 32).toNat := BitVec.toNat_ofInt _
  have hmsb : (BitVec.ofInt 32 value).msb = decide (value < 0) := by
    rw [BitVec.msb_eq_decide, hword]
    congr 1
    exact propext (by omega)
  have hdouble : (BitVec.ofInt 32 value <<< 1).toNat = 2 * (value % 2 ^ 32).toNat % 2 ^ 32 := by
    rw [BitVec.toNat_shiftLeft, hword, Nat.shiftLeft_eq, Nat.mul_comm]
  rw [encodeZigZag, sshiftRight_sign, hmsb, zigZag]
  by_cases hsign : 0 ≤ value
  · rw [if_neg (by simpa using hsign), if_pos hsign, BitVec.xor_zero, hdouble]
    omega
  · rw [if_pos (by simpa using hsign), if_neg hsign, BitVec.xor_allOnes, BitVec.toNat_not, hdouble]
    omega

/-- On 64-bit integers the shifts compute the zigzag image. -/
theorem encodeZigZag64_eq {value : Int} (hlower : -2 ^ 63 ≤ value) (hupper : value < 2 ^ 63) :
    encodeZigZag64 value = zigZag value := by
  rw [zigZag]
  by_cases hsign : 0 ≤ value
  · rw [if_pos hsign, encodeZigZag64_of_nonneg hsign hupper]
    omega
  · rw [if_neg hsign, encodeZigZag64_of_neg (by omega) hlower]
    omega

/-- `writeVarInt` writes the shortest form of the zigzag image. -/
theorem shortestForm_varIntBytes {value : Int} (hlower : -2 ^ 31 ≤ value)
    (hupper : value < 2 ^ 31) : ShortestForm (varIntBytes value) (zigZag value) := by
  rw [varIntBytes, uVarIntBytes, uVarIntLoop_eq, toNat_encodeZigZag hlower hupper]
  exact shortestForm_groups le_rfl

/-- A varint has at most five bytes. -/
theorem length_varIntBytes_le (value : Int) : (varIntBytes value).length ≤ 5 := by
  have hlt := (encodeZigZag value).isLt
  rw [varIntBytes, uVarIntBytes, uVarIntLoop_eq]
  exact @length_groups_le _ _ 4 (by omega)

/-- `writeVarLong` writes the shortest form of the zigzag image. -/
theorem shortestForm_varLongBytes {value : Int} (hlower : -2 ^ 63 ≤ value)
    (hupper : value < 2 ^ 63) : ShortestForm (varLongBytes value) (zigZag value) ∧
      (varLongBytes value).length ≤ 10 := by
  have hlt : zigZag value < 2 ^ 64 := by
    unfold zigZag
    split <;> omega
  have hbytes : varLongBytes value = groups (zigZag value) (zigZag value) := by
    rw [varLongBytes, encodeZigZag64_eq hlower hupper, Int.toNat_natCast,
      varLongLoop_eq le_rfl hlt]
  rw [hbytes]
  exact ⟨shortestForm_groups le_rfl, @length_groups_le _ _ 9 (by omega)⟩

/-! ## The readers -/

/-- `readUVarInt` throws at the fifth byte that announces another one. -/
theorem readUVarIntLoop_count {bytes : Bytes} {k count : Nat} {result value : BitVec 32}
    (hread : readUVarIntLoop bytes (7 * k) result = some (value, count)) (hk : k ≤ 4) :
    k + count ≤ 5 := by
  induction bytes generalizing k count result with
  | nil =>
      cases hread
      omega
  | cons byte bytes ih =>
      rw [readUVarIntLoop] at hread
      split at hread
      · split at hread
        · cases hread
        · next hshort =>
            rw [show 7 * k + 7 = 7 * (k + 1) by omega] at hread
            obtain ⟨⟨_, more⟩, hmore, hpair⟩ := Option.map_eq_some_iff.mp hread
            cases hpair
            have := ih hmore (by omega)
            omega
      · cases hread
        omega

/-- What `readUVarInt` returns fits 32 bits. -/
theorem readUVarIntFrom_bounds {bytes : Bytes} {value count : Nat}
    (hread : readUVarIntFrom bytes = some (value, count)) : value < 2 ^ 32 ∧ count ≤ 5 := by
  obtain ⟨⟨result, groups⟩, hloop, hpair⟩ := Option.map_eq_some_iff.mp hread
  cases hpair
  have hcount := @readUVarIntLoop_count bytes 0 count 0#32 result hloop (by omega)
  exact ⟨result.isLt, by omega⟩

/-- Nine groups announce another one and the tenth has more than the single bit that is left of 64.
`groups` are already read. -/
def Overlong (groups : Nat) (bytes : Bytes) : Prop :=
  (∀ byte ∈ bytes.take (9 - groups), 128 ≤ byte.toNat) ∧
    ∃ tenth ∈ bytes[9 - groups]?, 1 < tenth.toNat ∧ tenth.toNat < 128

/-- `Overlong` is decidable by looking at the bytes. -/
instance (groups : Nat) (bytes : Bytes) : Decidable (Overlong groups bytes) :=
  inferInstanceAs (Decidable ((∀ byte ∈ List.take _ bytes, _) ∧ ∃ tenth ∈ bytes[_]?, _))

/-- A byte that goes on makes a varint overlong if the rest is. -/
theorem overlong_more {groups : Nat} {byte : UInt8} {bytes : Bytes} (hgroups : groups < 9)
    (hbyte : 128 ≤ byte.toNat) :
    Overlong groups (byte :: bytes) ↔ Overlong (groups + 1) bytes := by
  have hleft : 9 - groups = 9 - (groups + 1) + 1 := by omega
  rw [Overlong, Overlong, hleft, List.take_succ_cons, List.forall_mem_cons,
    List.getElem?_cons_succ, and_iff_right hbyte]

/-- `readVarLong` adds up the groups, at most ten; they exceed 64 bits exactly if they are
overlong. -/
theorem readVarLongLoop_spec {bytes : Bytes} {k count : Nat} {result sum : Int}
    (hread : readVarLongLoop bytes (7 * k) result = some (sum, count)) (hk : k ≤ 9) :
    k + count ≤ 10 ∧ ∃ n : Nat, sum = result + (n : Int) * 2 ^ (7 * k) ∧
      (n < 2 ^ (64 - 7 * k) ↔ ¬ Overlong k bytes) := by
  induction bytes generalizing k count result with
  | nil =>
      rw [readVarLongLoop, if_neg (by omega)] at hread
      cases hread
      refine ⟨by omega, 0, by simp, ?_⟩
      simp [Overlong]
  | cons byte bytes ih =>
      rw [readVarLongLoop, if_neg (by omega), show ((byte.toNat : Int) % 128) =
        ((byte.toNat % 128 : Nat) : Int) by omega, shiftLeft_group (by omega)] at hread
      by_cases hbyte : byte.toNat ≥ 0x80
      · simp only [if_pos hbyte] at hread
        obtain ⟨⟨_, more⟩, hmore, hpair⟩ := Option.map_eq_some_iff.mp hread
        cases hpair
        -- after the tenth group the loop throws
        have hnext : k < 9 := by
          by_contra hlast
          rw [show k = 9 by omega] at hmore
          cases bytes <;> simp [readVarLongLoop] at hmore
        rw [show 7 * k + 7 = 7 * (k + 1) by omega] at hmore
        obtain ⟨hcount, n, hsum, hfits⟩ := ih hmore (by omega)
        refine ⟨by omega, byte.toNat % 128 + 128 * n, ?_, ?_⟩
        · have hpow : (2 : Int) ^ (7 * (k + 1)) = 128 * 2 ^ (7 * k) := by
            rw [show 7 * (k + 1) = 7 + 7 * k by omega, pow_add]
            norm_num
          rw [hsum, hpow]
          push_cast
          ring
        · have hpow : 2 ^ (64 - 7 * k) = 128 * 2 ^ (64 - 7 * (k + 1)) := by
            rw [show 64 - 7 * k = 7 + (64 - 7 * (k + 1)) by omega, Nat.pow_add]
          rw [overlong_more hnext hbyte, ← hfits, hpow]
          omega
      · simp only [if_neg hbyte] at hread
        cases hread
        refine ⟨by omega, byte.toNat % 128, rfl, ?_⟩
        by_cases hlast : k = 9
        · subst hlast
          simp only [Overlong, List.take_zero, List.not_mem_nil, Nat.sub_self,
            List.getElem?_cons_zero]
          grind
        · have hroom : 128 ≤ 2 ^ (64 - 7 * k) := by
            calc 128 = 2 ^ 7 := by norm_num
              _ ≤ 2 ^ (64 - 7 * k) := Nat.pow_le_pow_right (by decide) (by omega)
          have hnot : ¬ Overlong k (byte :: bytes) := by
            intro hover
            have hfirst := hover.1 byte (by
              rw [show 9 - k = 9 - (k + 1) + 1 by omega, List.take_succ_cons]
              exact List.mem_cons_self)
            omega
          simp only [hnot, not_false_eq_true, iff_true]
          omega

/-- What `readVarLong` returns fits 64 bits exactly if the bytes are not overlong. -/
theorem readVarLongFrom_bounds {bytes : Bytes} {value : Int} {count : Nat}
    (hread : readVarLongFrom bytes = some (value, count)) :
    count ≤ 10 ∧ ((-2 ^ 63 ≤ value ∧ value < 2 ^ 63) ↔ ¬ Overlong 0 bytes) := by
  obtain ⟨⟨sum, groups⟩, hloop, hpair⟩ := Option.map_eq_some_iff.mp hread
  cases hpair
  obtain ⟨hcount, n, hsum, hfits⟩ := @readVarLongLoop_spec bytes 0 count 0 sum hloop (by omega)
  refine ⟨by omega, ?_⟩
  rw [← hfits, hsum, show (0 : Int) + (n : Int) * 2 ^ (7 * 0) = n by simp, decodeZigZag64_natCast]
  split <;> omega

/-- Overlong bytes are read to the tenth. -/
theorem readVarLongLoop_overlong {bytes : Bytes} {k : Nat} (hlong : Overlong k bytes) (hk : k ≤ 9)
    (result : Int) : (readVarLongLoop bytes (7 * k) result).isSome := by
  induction bytes generalizing k result with
  | nil =>
      obtain ⟨_, tenth, htenth, _⟩ := hlong
      simp at htenth
  | cons byte bytes ih =>
      rw [readVarLongLoop, if_neg (by omega)]
      by_cases hbyte : byte.toNat ≥ 0x80
      · have hnext : k < 9 := by
          by_contra hlast
          obtain ⟨_, tenth, htenth, hlt⟩ := hlong
          rw [show k = 9 by omega, Nat.sub_self] at htenth
          obtain rfl : byte = tenth := by simpa using htenth
          omega
        simp only [if_pos hbyte, Option.isSome_map, show 7 * k + 7 = 7 * (k + 1) by omega]
        exact ih ((overlong_more hnext hbyte).mp hlong) (by omega) _
      · simp only [if_neg hbyte]
        rfl

/-! ## Canonical and bounded -/

/-- A writer emits as many bytes as were computed ahead, within a limit, and they are the shortest
form of the zigzag image; no value's bytes begin another's. -/
def WritesShortest (bytesOf : Int → Bytes) (sizeOf : Int → Nat) (bits limit : Nat) : Prop :=
  ∀ value : Int, -2 ^ bits ≤ value → value < 2 ^ bits →
    (bytesOf value).length = sizeOf value ∧ (bytesOf value).length ≤ limit ∧
      ShortestForm (bytesOf value) (zigZag value) ∧
      ∀ other : Int, -2 ^ bits ≤ other → other < 2 ^ bits →
        bytesOf value <+: bytesOf other → bytesOf value = bytesOf other ∧ value = other

/-- No shortest form begins with another. -/
theorem ShortestForm.eq_of_prefix {first second : Bytes} {value other : Int}
    (hfirst : ShortestForm first (zigZag value)) (hsecond : ShortestForm second (zigZag other))
    (h : first <+: second) : first = second ∧ value = other := by
  have hbytes := hfirst.terminated.eq_of_prefix hsecond.terminated h
  refine ⟨hbytes, zigZag_inj ?_⟩
  rw [← hfirst.value, hbytes, hsecond.value]

/-- Varints are written in their shortest form. -/
theorem writesShortest_varInt : WritesShortest varIntBytes sizeOfVarInt 31 5 := by
  intro value hlower hupper
  have hform := shortestForm_varIntBytes hlower hupper
  refine ⟨(sizeOfVarInt_eq value).symm, length_varIntBytes_le value, hform, ?_⟩
  intro other hotherLower hotherUpper hprefix
  exact hform.eq_of_prefix (shortestForm_varIntBytes hotherLower hotherUpper) hprefix

/-- Varlongs are written in their shortest form. -/
theorem writesShortest_varLong : WritesShortest varLongBytes sizeOfVarLong 63 10 := by
  intro value hlower hupper
  obtain ⟨hform, hlength⟩ := shortestForm_varLongBytes hlower hupper
  refine ⟨(sizeOfVarLong_eq value).symm, hlength, hform, ?_⟩
  intro other hotherLower hotherUpper hprefix
  exact hform.eq_of_prefix (shortestForm_varLongBytes hotherLower hotherUpper).1 hprefix

/-- The writers are canonical and the readers bounded, on bytes that are not overlong. -/
theorem varInts_canonical_iff (bytes : Bytes) :
    (WritesShortest varIntBytes sizeOfVarInt 31 5 ∧
      WritesShortest varLongBytes sizeOfVarLong 63 10 ∧
      (∀ value count : Nat, readUVarIntFrom bytes = some (value, count) →
        value < 2 ^ 32 ∧ count ≤ 5) ∧
      ∀ (value : Int) (count : Nat), readVarLongFrom bytes = some (value, count) →
        (-2 ^ 63 ≤ value ∧ value < 2 ^ 63) ∧ count ≤ 10) ↔
      ¬ Overlong 0 bytes := by
  constructor
  · intro ⟨_, _, _, hlong⟩ hoverlong
    obtain ⟨⟨value, count⟩, hread⟩ : ∃ read, readVarLongFrom bytes = some read := by
      rw [← Option.isSome_iff_exists, readVarLongFrom, Option.isSome_map]
      exact @readVarLongLoop_overlong bytes 0 hoverlong (by omega) 0
    exact (readVarLongFrom_bounds hread).2.mp (hlong value count hread).1 hoverlong
  · intro hnot
    refine ⟨writesShortest_varInt, writesShortest_varLong, ?_, ?_⟩
    · intro value count hread
      exact readUVarIntFrom_bounds hread
    · intro value count hread
      obtain ⟨hcount, hbounds⟩ := readVarLongFrom_bounds hread
      exact ⟨hbounds.mpr hnot, hcount⟩

/-- Ten bytes with all of their 70 bits set are read as `-2 ^ 69`. -/
theorem readVarLongFrom_overlong :
    readVarLongFrom (List.replicate 9 0xff ++ [0x7f]) = some (-2 ^ 69, 10) ∧
    ¬ ∀ (bytes : Bytes) (value : Int) (count : Nat), readVarLongFrom bytes = some (value, count) →
      (-2 ^ 63 ≤ value ∧ value < 2 ^ 63) ∧ count ≤ 10 := by
  have hread : readVarLongFrom (List.replicate 9 0xff ++ [0x7f]) = some (-2 ^ 69, 10) := by
    decide +kernel
  refine ⟨hread, ?_⟩
  intro hall
  obtain ⟨⟨hlower, _⟩, _⟩ := hall _ _ _ hread
  exact absurd hlower (by decide)

end KafkaJs.Protocol
