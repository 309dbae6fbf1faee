import KafkaJs.Protocol.MessageSetRoundTrip
import KafkaJs.Utils.Rounding

/-!
# Offsets in compressed messages

From version 1 of the message format on, the messages inside a compressed one have relative offsets.
The last of them has the offset of the compressed message, from which `EntriesDecoder` derives the
others. It takes the difference of the two offsets on numbers, which hold 53 bits, and adds it to
the relative offsets exactly. So all offsets are right or all are off by the same amount:
`offsetsExact_iff` says when.
-/

namespace KafkaJs.Protocol.MessageSet

open KafkaJs.Data

/-- A message inside a compressed one: bytes in which the decoder of entries finds it. -/
structure InnerMessage where
  bytes : Bytes
  message : Message
  nonempty : bytes ≠ []
  reads : Reads entryDecoder bytes message

variable {inner : List InnerMessage}

/-- The loop finds messages that stand one after the other. -/
theorem entriesLoop_inner {fuel : Nat} (hfuel : inner.length < fuel) (found : List Message)
    (before : Bytes) :
    entriesLoop fuel found ⟨before ++ inner.flatMap InnerMessage.bytes, before.length⟩ =
      some (.ok (found ++ inner.map InnerMessage.message)) := by
  induction inner generalizing fuel found before with
  | nil =>
      obtain ⟨fuel, rfl⟩ := Nat.exists_eq_add_of_lt hfuel
      rw [entriesLoop, if_neg (by simp)]
      simp
  | cons message inner ih =>
      obtain ⟨fuel, rfl⟩ := Nat.exists_eq_succ_of_ne_zero (Nat.ne_zero_of_lt hfuel)
      rw [List.length_cons] at hfuel
      have hpos := List.length_pos_iff.mpr message.nonempty
      have hread := message.reads before (inner.flatMap InnerMessage.bytes)
      have hnext := @ih fuel (by omega) (found ++ [message.message]) (before ++ message.bytes)
      simp only [List.append_assoc, List.length_append, Nat.cast_add] at hnext
      rw [List.flatMap_cons, entriesLoop, if_pos (by simp only [List.length_append]; omega), hread]
      dsimp only
      rw [hnext, List.map_cons, List.singleton_append]

/-- The decoder adds one rounded difference, of the compressed offset and the last relative one, to
every inner offset. -/
theorem entriesDecoder_inner {compressedMessage : Message} {last : InnerMessage} {fuel : Nat}
    (hlast : inner.getLast? = some last) (hmagic : compressedMessage.magicByte = 1)
    (hoffset : 0 ≤ compressedMessage.offset) (hfuel : inner.length < fuel) :
    entriesDecoder fuel (Decoder.new (inner.flatMap InnerMessage.bytes)) compressedMessage =
      some (.ok (inner.map fun entry =>
        { entry.message with
          offset := entry.message.offset +
            Number.ofInt (Number.ofInt compressedMessage.offset -
              Number.ofInt last.message.offset) })) := by
  have hloop := entriesLoop_inner hfuel [] []
  rw [List.nil_append, List.nil_append] at hloop
  have hversion : compressedMessage.magicByte > 0 ∧ compressedMessage.offset ≥ 0 :=
    ⟨by omega, hoffset⟩
  have hmessage : (inner.map InnerMessage.message).getLast? = some last.message := by
    rw [List.getLast?_map, hlast]
    rfl
  show (entriesLoop fuel [] ⟨_, 0⟩).map _ = _
  rw [show (0 : Int) = ([] : Bytes).length from rfl, hloop]
  show some (absoluteOffsets compressedMessage (inner.map InnerMessage.message)) = _
  rw [absoluteOffsets, if_pos hversion, hmessage]
  dsimp only
  rw [List.map_map]
  rfl

/-- The messages inside a compressed one get the offsets that their relative offsets stand for: that
of the last one stands for the offset of the compressed message. -/
def OffsetsExact (fuel : Nat) (compressedMessage : Message) (inner : List InnerMessage)
    (last : InnerMessage) : Prop :=
  entriesDecoder fuel (Decoder.new (inner.flatMap InnerMessage.bytes)) compressedMessage =
    some (.ok (inner.map fun entry =>
      { entry.message with
        offset := compressedMessage.offset - last.message.offset + entry.message.offset }))

/-- The offsets are exact exactly if the rounded difference that the decoder adds is the difference.
-/
theorem offsetsExact_iff_base {compressedMessage : Message} {last : InnerMessage} {fuel : Nat}
    (hlast : inner.getLast? = some last) (hmagic : compressedMessage.magicByte = 1)
    (hoffset : 0 ≤ compressedMessage.offset) (hfuel : inner.length < fuel) :
    OffsetsExact fuel compressedMessage inner last ↔
      Number.ofInt (Number.ofInt compressedMessage.offset - Number.ofInt last.message.offset) =
        compressedMessage.offset - last.message.offset := by
  rw [OffsetsExact, entriesDecoder_inner hlast hmagic hoffset hfuel]
  constructor
  · intro h
    have hmap := List.map_inj_left.mp (Except.ok.inj (Option.some.inj h)) last
      (List.mem_of_getLast? hlast)
    have hsame := congrArg Message.offset hmap
    dsimp only at hsame
    omega
  · intro h
    rw [h]
    refine congrArg _ (congrArg _ (List.map_congr_left fun entry _ => ?_))
    rw [Int.add_comm]

/-- The offsets are exact exactly if the difference of the compressed message's offset and the last
relative one is a double that absorbs the difference of their rounding errors. -/
theorem offsetsExact_iff {compressedMessage : Message} {last : InnerMessage} {fuel : Nat}
    (hlast : inner.getLast? = some last) (hmagic : compressedMessage.magicByte = 1)
    (hoffset : 0 ≤ compressedMessage.offset)
    (hrelative : last.message.offset ≤ compressedMessage.offset) (hfuel : inner.length < fuel) :
    OffsetsExact fuel compressedMessage inner last ↔
      Number.Absorbs (compressedMessage.offset - last.message.offset)
        (Number.roundingError compressedMessage.offset -
          Number.roundingError last.message.offset) := by
  rw [offsetsExact_iff_base hlast hmagic hoffset hfuel]
  exact Number.ofInt_sub_iff hrelative

/-- Below `2 ^ 53` the offsets are exact. -/
theorem offsetsExact_of_lt {compressedMessage : Message} {last : InnerMessage} {fuel : Nat}
    (hlast : inner.getLast? = some last) (hmagic : compressedMessage.magicByte = 1)
    (hoffset : 0 ≤ compressedMessage.offset) (hrelative : 0 ≤ last.message.offset)
    (hle : last.message.offset ≤ compressedMessage.offset)
    (hlt : compressedMessage.offset < 2 ^ 53) (hfuel : inner.length < fuel) :
    OffsetsExact fuel compressedMessage inner last := by
  rw [offsetsExact_iff_base hlast hmagic hoffset hfuel]
  have hcompressed : Number.ofInt compressedMessage.offset = compressedMessage.offset :=
    Number.ofInt_of_lt (by omega)
  have hlastOffset : Number.ofInt last.message.offset = last.message.offset :=
    Number.ofInt_of_lt (by omega)
  rw [hcompressed, hlastOffset, Number.ofInt_of_lt (by omega)]

/-! ## Samples -/

/-- A compressed message of a given offset. -/
def compressedSample (offset : Int) : Message :=
  { offset, size := 0, crc := 0, magicByte := 1, attributes := 1, timestamp := some 0, key := none
    value := none }

/-- A message without key and value, at a relative offset. -/
def innerSample (offset : Int) (hoffset : FitsInt 8 offset) : InnerMessage :=
  let encoded := @Entry.encoded .v1 0 ⟨none, none, none, none⟩ offset hoffset (by decide)
    (fun _ => by decide) rfl
  { bytes := encoded.bytes
    message := encoded.message
    nonempty := by
      have hlength := encoded.length_bytes
      exact List.ne_nil_of_length_pos (by omega)
    reads := reads_entryDecoder encoded }

/-- The offsets of the sample are exact. -/
theorem offsetsExact_sample :
    OffsetsExact 3 (compressedSample 10) [innerSample 0 (by decide), innerSample 1 (by decide)]
      (innerSample 1 (by decide)) :=
  (offsetsExact_iff rfl rfl (by decide) (by decide) (by decide)).mpr (by decide +kernel)

/-- A compressed message at `2 ^ 53 + 1`: the one inside gets the offset `2 ^ 53`. -/
theorem not_offsetsExact_sample :
    ¬ OffsetsExact 2 (compressedSample (2 ^ 53 + 1)) [innerSample 0 (by decide)]
        (innerSample 0 (by decide)) ∧
      entriesDecoder 2 (Decoder.new ([innerSample 0 (by decide)].flatMap InnerMessage.bytes))
          (compressedSample (2 ^ 53 + 1)) =
        some (.ok [{ (innerSample 0 (by decide)).message with offset := 2 ^ 53 }]) := by
  constructor
  · rw [offsetsExact_iff_base rfl rfl (by decide) (by decide)]
    decide +kernel
  · rw [entriesDecoder_inner rfl rfl (by decide) (by decide)]
    rfl

end KafkaJs.Protocol.MessageSet
