import KafkaJs.Protocol.Items

/-!
# Writes that have returned

`Writes` needs to know that the values are in range and that the data stays below `2 ^ 31` bytes.
A write that has returned needs neither: the writers of integers throw for a value out of range, and
they throw once data has been lost. `Lost` is the state of an encoder whose buffer was replaced by
one that is too small; it lasts until the next integer.
-/

namespace KafkaJs.Protocol

open KafkaJs.Data

variable {encoder next : Encoder} {data bytes : Bytes}

/-! ## Single writes -/

/-- An integer that is stored fits and has room. -/
theorem putInt_eq_ok {width position : Nat} {value : Int} {buf result : Bytes}
    (h : putInt width value position buf = .ok result) :
    FitsInt width value ∧ position + width ≤ buf.length := by
  unfold putInt at h
  split at h
  · cases h
  · next hrange =>
      split at h
      · cases h
      · next hroom =>
          rw [not_or, Int.not_lt, Int.not_le] at hrange
          exact ⟨hrange, Nat.not_lt.mp hroom⟩

/-- Whatever the size, the next power of two is not above that of the largest buffer. -/
theorem nextPowerOfTwo_le (value : Nat) : nextPowerOfTwo value ≤ 2 ^ 30 := by
  have hpower : ∀ k < 32, (1#32 <<< k).toInt ≤ 2 ^ 30 := by decide
  exact hpower _ (Nat.mod_lt _ (by decide))

/-- Making room moves nothing and gives no buffer of more than `2 ^ 30` bytes. -/
theorem ensureAvailable_eq_ok {length : Nat} (h : encoder.ensureAvailable length = .ok next) :
    next.offset = encoder.offset ∧
      (encoder.buf.length ≤ 2 ^ 30 → next.buf.length ≤ 2 ^ 30) := by
  unfold Encoder.ensureAvailable at h
  split at h
  · obtain ⟨newBuffer, halloc, hnext⟩ := bind_eq_ok h
    unfold alloc at halloc
    split at halloc
    · cases halloc
    · cases halloc
      cases hnext
      refine ⟨rfl, fun _ => ?_⟩
      have hle := nextPowerOfTwo_le (encoder.offset + length)
      rw [length_copyInto, List.length_replicate]
      omega
  · cases h
    exact ⟨rfl, id⟩

/-- An encoder that holds data holds at most `2 ^ 30` bytes. -/
theorem Encoder.Holds.length_le_two_pow (h : encoder.Holds data) : data.length ≤ 2 ^ 30 :=
  h.length_le.trans h.bounded

/-- A write below `2 ^ 31` bytes that has returned has appended its bytes. -/
theorem Writes.holds {op : Encoder → Except KafkaError Encoder} (hop : Writes op bytes)
    (hholds : encoder.Holds data) (hlength : data.length + bytes.length < 2 ^ 31)
    (h : op encoder = .ok next) : next.Holds (data ++ bytes) := by
  rcases hop encoder data hholds hlength with ⟨other, hother, hdata, -⟩ | ⟨-, -, error, herror⟩
  · cases h.symm.trans hother
    exact hdata
  · cases h.symm.trans herror

/-- An integer that has been written was in range, and there was room for it. -/
theorem writeInt_eq_ok {width : Nat} {value : Int} (h : encoder.writeInt width value = .ok next)
    (hbounded : encoder.buf.length ≤ 2 ^ 30) :
    FitsInt width value ∧ encoder.offset + width ≤ 2 ^ 30 := by
  obtain ⟨middle, hensure, hrest⟩ := bind_eq_ok h
  obtain ⟨buf, hput, -⟩ := bind_eq_ok hrest
  obtain ⟨hoffset, hbuf⟩ := ensureAvailable_eq_ok hensure
  obtain ⟨hfits, hroom⟩ := putInt_eq_ok hput
  rw [hoffset] at hroom
  exact ⟨hfits, hroom.trans (hbuf hbounded)⟩

/-- A returned integer fits and is held. -/
theorem holds_of_writeInt {width : Nat} {value : Int} (hholds : encoder.Holds data)
    (h : encoder.writeInt width value = .ok next) :
    FitsInt width value ∧ next.Holds (data ++ intBytes width value) := by
  obtain ⟨hfits, hroom⟩ := writeInt_eq_ok h hholds.bounded
  rw [hholds.offset] at hroom
  refine ⟨hfits, (writes_writeInt hfits.1 hfits.2).holds hholds ?_ h⟩
  rw [length_intBytes]
  omega

/-- A returned string is short and is held. -/
theorem holds_of_writeString {text : Text} (hholds : encoder.Holds data)
    (h : encoder.writeString (some text) = .ok next) :
    text.toUtf8.length < 2 ^ 15 ∧ next.Holds (data ++ stringBytes (some text)) := by
  obtain ⟨middle, hensure, hrest⟩ := bind_eq_ok h
  obtain ⟨last, hlead, -⟩ := bind_eq_ok hrest
  obtain ⟨-, hbuf⟩ := ensureAvailable_eq_ok hensure
  obtain ⟨hfits, -⟩ := writeInt_eq_ok hlead (hbuf hholds.bounded)
  have hshort : text.toUtf8.length < 2 ^ 15 := by
    have hupper := hfits.2
    omega
  refine ⟨hshort, (writes_writeString fun other hother => ?_).holds hholds ?_ h⟩
  · cases hother
    exact hshort
  · have hle := hholds.length_le_two_pow
    rw [stringBytes, List.length_append, length_intBytes]
    omega

/-! ## Arrays of numbers -/

/-- Returned numbers fit and are held. -/
theorem holds_of_writeEach {values : List Int} (hholds : encoder.Holds data)
    (h : encoder.writeEach Encoder.writeElement (values.map .number) = .ok next) :
    (∀ value ∈ values, FitsInt 4 value) ∧ next.Holds (data ++ values.flatMap (intBytes 4)) := by
  induction values generalizing encoder data with
  | nil =>
      cases h
      rw [List.flatMap_nil, List.append_nil]
      exact ⟨List.forall_mem_nil _, hholds⟩
  | cons value values ih =>
      obtain ⟨middle, hfirst, hrest⟩ := bind_eq_ok h
      obtain ⟨hfits, hmiddle⟩ := holds_of_writeInt hholds hfirst
      obtain ⟨hall, hlast⟩ := ih hmiddle hrest
      rw [List.flatMap_cons, ← List.append_assoc]
      exact ⟨List.forall_mem_cons.mpr ⟨hfits, hall⟩, hlast⟩

/-- A returned array of numbers fits and is held. -/
theorem holds_of_writeNumbers {values : List Int} (hholds : encoder.Holds data)
    (h : encoder.writeArrayOf (values.map .number) none = .ok next) :
    (values.length < 2 ^ 31 ∧ ∀ value ∈ values, FitsInt 4 value) ∧
      next.Holds (data ++ (intBytes 4 values.length ++ values.flatMap (intBytes 4))) := by
  obtain ⟨middle, hlead, hrest⟩ := bind_eq_ok h
  rw [Option.getD_none, List.length_map] at hlead
  obtain ⟨hfits, hmiddle⟩ := holds_of_writeInt hholds hlead
  obtain ⟨hall, hlast⟩ := holds_of_writeEach hmiddle hrest
  have hlength : values.length < 2 ^ 31 := by
    have hupper := hfits.2
    omega
  rw [← List.append_assoc]
  exact ⟨⟨hlength, hall⟩, hlast⟩

/-! ## Arrays of encoders -/

/-- The offset is behind every buffer that the encoder can have. -/
structure Encoder.Lost (encoder : Encoder) : Prop where
  bounded : encoder.buf.length ≤ 2 ^ 30
  behind : 2 ^ 30 < encoder.offset

/-- An encoder that has lost bytes does not get them back by a buffer. -/
theorem lost_of_writeBufferInternal {buffer : Bytes} (hlost : encoder.Lost)
    (h : encoder.writeBufferInternal buffer = .ok next) : next.Lost := by
  obtain ⟨middle, hensure, hnext⟩ := bind_eq_ok h
  obtain ⟨hoffset, hbuf⟩ := ensureAvailable_eq_ok hensure
  cases hnext
  have hbehind := hlost.behind
  constructor
  · rw [length_copyInto]
    exact hbuf hlost.bounded
  · dsimp only
    omega

/-- Bytes are appended as long as they fit 31 bits. -/
theorem holds_or_lost_of_writeBufferInternal {buffer : Bytes} (hholds : encoder.Holds data)
    (h : encoder.writeBufferInternal buffer = .ok next) :
    next.Holds (data ++ buffer) ∨ next.Lost := by
  by_cases hlength : data.length + buffer.length < 2 ^ 31
  · exact Or.inl ((writes_writeBufferInternal buffer).holds hholds hlength h)
  · obtain ⟨middle, hensure, hnext⟩ := bind_eq_ok h
    obtain ⟨hoffset, hbuf⟩ := ensureAvailable_eq_ok hensure
    cases hnext
    refine Or.inr ⟨?_, ?_⟩
    · rw [length_copyInto]
      exact hbuf hholds.bounded
    · dsimp only
      rw [hoffset, hholds.offset]
      omega

/-- An encoder that has lost bytes does not get them back by an array. -/
theorem lost_of_writeEncoderArray {encoders : List Encoder} (hlost : encoder.Lost)
    (h : encoder.writeEncoderArray encoders = .ok next) : next.Lost := by
  induction encoders generalizing encoder with
  | nil =>
      cases h
      exact hlost
  | cons value encoders ih =>
      obtain ⟨middle, hfirst, hrest⟩ := bind_eq_ok h
      exact ih (lost_of_writeBufferInternal hlost hfirst) hrest

/-- An array of encoders is held, or bytes are lost. -/
theorem holds_or_lost_of_writeEncoderArray {encoders : List Encoder} {contents : List Bytes}
    (hall : HoldAll encoders contents) (hholds : encoder.Holds data)
    (h : encoder.writeEncoderArray encoders = .ok next) :
    next.Holds (data ++ contents.flatten) ∨ next.Lost := by
  induction hall generalizing encoder data with
  | nil =>
      cases h
      rw [List.flatten_nil, List.append_nil]
      exact Or.inl hholds
  | @cons value content encoders contents hvalue _ ih =>
      obtain ⟨middle, hfirst, hrest⟩ := bind_eq_ok h
      rw [hvalue.buffer_eq] at hfirst
      rw [List.flatten_cons, ← List.append_assoc]
      rcases holds_or_lost_of_writeBufferInternal hholds hfirst with hmiddle | hlost
      · exact ih hmiddle hrest
      · exact Or.inr (lost_of_writeEncoderArray hlost hrest)

/-- A returned array of objects is held, or bytes are lost. -/
theorem holds_or_lost_of_writeObjects {encoders : List Encoder} {contents : List Bytes}
    (hall : HoldAll encoders contents) (hholds : encoder.Holds data)
    (h : encoder.writeArrayOf (encoders.map .object) none = .ok next) :
    encoders.length < 2 ^ 31 ∧
      (next.Holds (data ++ (intBytes 4 encoders.length ++ contents.flatten)) ∨ next.Lost) := by
  obtain ⟨middle, hlead, hrest⟩ := bind_eq_ok h
  rw [Option.getD_none, List.length_map] at hlead
  obtain ⟨hfits, hmiddle⟩ := holds_of_writeInt hholds hlead
  rw [Kind.writeEach_object] at hrest
  have hupper := hfits.2
  rw [← List.append_assoc]
  exact ⟨by omega, holds_or_lost_of_writeEncoderArray hall hmiddle hrest⟩

/-! ## Bytes -/

/-- The length in front of bytes is not written where data has been lost. -/
theorem not_lost_of_writeBytes {value : Bytes} (h : encoder.writeBytes value = .ok next) :
    ¬ encoder.Lost := by
  intro hlost
  obtain ⟨middle, hensure, hrest⟩ := bind_eq_ok h
  obtain ⟨last, hlead, -⟩ := bind_eq_ok hrest
  obtain ⟨hoffset, hbuf⟩ := ensureAvailable_eq_ok hensure
  have hroom := (writeInt_eq_ok hlead (hbuf hlost.bounded)).2
  have hbehind := hlost.behind
  omega

/-- Returned bytes are held if all of them stay below `2 ^ 31`. -/
theorem holds_of_writeBytes {value : Bytes} (hholds : encoder.Holds data)
    (hlength : data.length + (4 + value.length) < 2 ^ 31)
    (h : encoder.writeBytes value = .ok next) :
    next.Holds (data ++ (intBytes 4 value.length ++ value)) := by
  refine (writes_writeBytes (show value.length < 2 ^ 31 by omega)).holds hholds ?_ h
  rw [List.length_append, length_intBytes]
  exact hlength

end KafkaJs.Protocol
