import KafkaJs.Protocol.Crc32
import KafkaJs.Protocol.FetchMessages
import KafkaJs.Protocol.MessageSet
import KafkaJs.Protocol.PrimitiveReaders

/-!
# Message sets round trip

The encoder of message sets (`protocol/messageSet/index.js` and `protocol/message`) and what the
decoder makes of a prefix of its output, framed by its size as in the first fetch responses.

`EncodedMessage` is a message as it stands in a set: its bytes, with the fact that the decoder
accepts them. A prefix cuts at most one message, and every place where it may be cut is noticed by
one of the three checks of the decoder, `entryDecoder_partial`. `messageSet_decodesTo` is the result
for the messages that the encoder writes.
-/

namespace KafkaJs.Protocol.MessageSet

open KafkaJs.Data

/-! ## Encoding -/

/-- The versions of the message protocol. -/
inductive MessageVersion where
  | v0
  | v1
  deriving DecidableEq

/-- The magic byte of a version. -/
def MessageVersion.magicByte : MessageVersion → Int
  | .v0 => 0
  | .v1 => 1

/-- The argument of `Message`. -/
structure Entry where
  compression : Option CodecType := none
  timestamp : Option Int := none
  key : Option Payload
  value : Option Payload

/-- `content`. Version 1 adds the timestamp, which is the time `now` where the entry has none. -/
def Entry.content (version : MessageVersion) (now : Int) (entry : Entry) :
    Except KafkaError Encoder := do
  let content ← Encoder.new.writeInt8 version.magicByte
  let content ← content.writeInt8 (compressionCode entry.compression % 8 : Nat)
  let content ← match version with
    | .v0 => pure content
    | .v1 => content.writeInt64 (entry.timestamp.getD now)
  let content ← content.writeNullableBytes entry.key
  content.writeNullableBytes entry.value

/-- `Message`. -/
def Entry.message (version : MessageVersion) (now : Int) (entry : Entry) :
    Except KafkaError Encoder := do
  let content ← entry.content version now
  let encoder ← Encoder.new.writeInt32 (crc32 content.buffer)
  encoder.writeEncoder content

/-- The loop over the entries. `clock i` is the time at which the `i`-th message is made. -/
def writeEntries (version : MessageVersion) (isCompressed : Bool) (clock : Nat → Int) :
    Nat → List Entry → Encoder → Except KafkaError Encoder
  | _, [], encoder => pure encoder
  | i, entry :: entries, encoder => do
      let message ← entry.message version (clock i)
      let encoder ← encoder.writeInt64 (if isCompressed then i else -1)
      let encoder ← encoder.writeInt32 message.size
      let encoder ← encoder.writeEncoder message
      writeEntries version isCompressed clock (i + 1) entries encoder

/-- `MessageSet`. The compression may be left out, which counts as compressed. -/
def messageSet (version : MessageVersion) (compression : Option (Option CodecType))
    (clock : Nat → Int) (entries : List Entry) : Except KafkaError Encoder :=
  let isCompressed := compression ≠ some none
  writeEntries version isCompressed clock 0 entries Encoder.new

/-! ## Messages in a set -/

/-- A message with fewer bytes than its size is partial. -/
theorem messageDecoder_partial {offset size : Int} {decoder : Decoder}
    (h : ((decoder.slice size).buffer.length : Int) < size) :
    ∃ message, messageDecoder offset size decoder = .error (partialMessage message) := by
  refine ⟨"remainingBytes(" ++ toString (decoder.slice size).buffer.length ++
    ") < messageSize(" ++ toString size ++ ")", ?_⟩
  show (if _ then _ else _ : Reader Message) decoder = _
  rw [if_pos h]
  rfl

/-- The decoder of entries with its two guards. -/
theorem entryDecoder_eq (decoder : Decoder) :
    entryDecoder decoder =
      if ¬ decoder.canReadBytes 8 then
        .error (partialMessage "There isn't enough bytes to read the offset")
      else
        Decoder.readInt64 decoder >>= fun (offset, decoder) =>
          if ¬ decoder.canReadBytes 4 then
            .error (partialMessage "There isn't enough bytes to read the message size")
          else
            Decoder.readInt32 decoder >>= fun (size, decoder) =>
              messageDecoder offset size decoder := by
  show (if _ then _ else _ : Reader Message) decoder = _
  split
  · rfl
  · refine congrArg _ (funext fun pair => ?_)
    obtain ⟨offset, next⟩ := pair
    dsimp only
    show (if _ then _ else _ : Reader Message) next = _
    by_cases hroom : ¬ next.canReadBytes 4
    · rw [if_pos hroom, if_pos hroom]
      rfl
    · rw [if_neg hroom, if_neg hroom]
      rfl

/-- The items that lie within the first `count` bytes, given the bytes of each. -/
def contained {α : Type} (bytesOf : α → Bytes) : Nat → List α → List α
  | _, [] => []
  | count, item :: items =>
      if (bytesOf item).length ≤ count then
        item :: contained bytesOf (count - (bytesOf item).length) items
      else []

/-- The items that are contained, after a map. -/
theorem contained_map {α β : Type} (bytesOf : β → Bytes) (f : α → β) (count : Nat)
    (items : List α) :
    contained bytesOf count (items.map f) =
      (contained (fun item => bytesOf (f item)) count items).map f := by
  induction items generalizing count with
  | nil => rfl
  | cons item items ih =>
      rw [List.map_cons, contained, contained]
      split
      · rw [ih, List.map_cons]
      · rfl

/-- A message as it stands in a set. `content` is what its size covers; the decoder accepts it,
and the message is not compressed. -/
structure EncodedMessage where
  offset : Int
  content : Bytes
  message : Message
  fits : FitsInt 8 offset
  length : content.length < 2 ^ 31
  decodes : Reads (messageDecoder offset content.length) content message
  plain : ∀ codecs, lookupCodecByAttributes codecs message.attributes = .ok none

namespace EncodedMessage

/-- The bytes of the message: offset, size and content. -/
def bytes (encoded : EncodedMessage) : Bytes :=
  int64Bytes encoded.offset ++ (intBytes 4 encoded.content.length ++ encoded.content)

/-- An entry has twelve bytes and its content. -/
theorem length_bytes (encoded : EncodedMessage) :
    encoded.bytes.length = 12 + encoded.content.length := by
  simp only [bytes, List.length_append, length_int64Bytes, length_intBytes]
  omega

end EncodedMessage

section Decoding

variable (encoded : EncodedMessage) (before after : Bytes)

/-- The decoder of an entry behind the offset. -/
theorem entryDecoder_offset :
    entryDecoder ⟨before ++ (int64Bytes encoded.offset ++ after), before.length⟩ =
      if after.length < 4 then
        .error (partialMessage "There isn't enough bytes to read the message size")
      else
        Decoder.readInt32 ⟨before ++ (int64Bytes encoded.offset ++ after),
            (before.length : Int) + 8⟩ >>= fun (size, decoder) =>
          messageDecoder encoded.offset size decoder := by
  obtain ⟨hlower, hupper⟩ := encoded.fits
  have hread := @reads_readInt64 encoded.offset (by omega) (by omega) before after
  have hfirst := canReadBytes_append before (int64Bytes encoded.offset ++ after) 8
  have hsecond := canReadBytes_append (before ++ int64Bytes encoded.offset) after 4
  simp only [List.append_assoc, List.length_append, length_int64Bytes, Nat.cast_add] at hsecond
  have hroom : (8 : Int) ≤ (int64Bytes encoded.offset ++ after).length := by
    rw [List.length_append, length_int64Bytes]
    omega
  rw [entryDecoder_eq, hfirst, if_neg (not_not_intro (decide_eq_true hroom)), hread, ok_bind]
  dsimp only
  rw [length_int64Bytes]
  rw [show ((8 : Nat) : Int) = 8 from rfl] at hsecond ⊢
  rw [hsecond]
  by_cases hshort : after.length < 4
  · rw [if_pos hshort, if_pos (by simp; omega)]
  · rw [if_neg hshort, if_neg (by simp; omega)]

/-- The decoder of an entry behind the size. -/
theorem entryDecoder_size :
    entryDecoder ⟨before ++ (int64Bytes encoded.offset ++
        (intBytes 4 encoded.content.length ++ after)), before.length⟩ =
      messageDecoder encoded.offset encoded.content.length
        ⟨before ++ (int64Bytes encoded.offset ++ (intBytes 4 encoded.content.length ++ after)),
          (before.length : Int) + 12⟩ := by
  have hlength := encoded.length
  have hread := @reads_readInt 4 encoded.content.length (by omega) (by omega)
    (before ++ int64Bytes encoded.offset) after
  simp only [List.append_assoc, List.length_append, length_int64Bytes, length_intBytes,
    Nat.cast_add] at hread
  rw [entryDecoder_offset, if_neg (by simp)]
  show (Decoder.readInt 4 _ >>= _) = _
  rw [show ((8 : Nat) : Int) = 8 from rfl] at hread
  rw [hread, ok_bind]
  dsimp only
  rw [show ((4 : Nat) : Int) = 4 from rfl,
    show (before.length : Int) + 8 + 4 = before.length + 12 by omega]

/-- The message is decoded wherever it stands. -/
theorem reads_entryDecoder : Reads entryDecoder encoded.bytes encoded.message := by
  intro before after
  have hdecodes := encoded.decodes
    (before ++ (int64Bytes encoded.offset ++ intBytes 4 encoded.content.length)) after
  have hsize := entryDecoder_size encoded before (encoded.content ++ after)
  have hlength := encoded.length_bytes
  simp only [List.append_assoc, List.length_append, length_int64Bytes, length_intBytes] at hdecodes
  simp only [EncodedMessage.bytes, List.append_assoc]
  rw [hsize, show (before.length : Int) + 12 = (before.length + (8 + 4) : Nat) by omega, hdecodes]
  congr 3
  rw [EncodedMessage.bytes] at hlength
  rw [hlength]
  omega

/-- Wherever the message is cut, the decoder notices that it is not there as a whole. -/
theorem entryDecoder_partial {count : Nat} (h : count < encoded.bytes.length) :
    ∃ message, entryDecoder ⟨before ++ encoded.bytes.take count, before.length⟩ =
      .error (partialMessage message) := by
  have hlength := encoded.length_bytes
  by_cases hoffset : count < 8
  · -- the offset is cut
    refine ⟨"There isn't enough bytes to read the offset", ?_⟩
    have hcan := canReadBytes_append before (encoded.bytes.take count) 8
    have hroom : ¬ (8 : Int) ≤ (encoded.bytes.take count).length := by
      rw [List.length_take]
      omega
    rw [entryDecoder_eq, hcan, if_pos]
    rw [decide_eq_false hroom]
    decide
  · have htake : encoded.bytes.take count = int64Bytes encoded.offset ++
        (intBytes 4 encoded.content.length ++ encoded.content).take (count - 8) := by
      rw [EncodedMessage.bytes, List.take_append, List.take_of_length_le (by simp; omega),
        length_int64Bytes]
    by_cases hsize : count < 12
    · -- the size is cut
      refine ⟨"There isn't enough bytes to read the message size", ?_⟩
      have hshort : ((intBytes 4 encoded.content.length ++ encoded.content).take
          (count - 8)).length < 4 := by
        rw [List.length_take]
        omega
      rw [htake, entryDecoder_offset, if_pos hshort]
    · -- the content is cut
      have hcontent : (intBytes 4 encoded.content.length ++ encoded.content).take (count - 8) =
          intBytes 4 encoded.content.length ++ encoded.content.take (count - 12) := by
        rw [List.take_append, List.take_of_length_le (by simp; omega), length_intBytes,
          Nat.sub_sub]
      have hslice := slice_take (before ++ (int64Bytes encoded.offset ++
        intBytes 4 encoded.content.length)) (encoded.content.take (count - 12))
        encoded.content.length
      simp only [List.append_assoc, List.length_append, length_int64Bytes, length_intBytes] at hslice
      rw [show ((before.length + (8 + 4) : Nat) : Int) = (before.length : Int) + 12 by
        omega] at hslice
      have hrest : ((encoded.content.take (count - 12)).take encoded.content.length).length <
          encoded.content.length := by
        simp only [List.length_take]
        omega
      rw [htake, hcontent, entryDecoder_size]
      refine messageDecoder_partial ?_
      show ((slice _ _ _).length : Int) < _
      rw [hslice]
      exact_mod_cast hrest

/-- A round of the loop over a message that is there as a whole. -/
theorem decodeEntry_encoded (codecs : Codecs) (fuel : Nat) :
    decodeEntry codecs fuel ⟨before ++ (encoded.bytes ++ after), before.length⟩ =
      some (.ok ([encoded.message],
        ⟨before ++ (encoded.bytes ++ after), (before.length : Int) + encoded.bytes.length⟩)) := by
  rw [decodeEntry, reads_entryDecoder encoded before after]
  dsimp only
  rw [encoded.plain]

end Decoding

section Prefixes

variable {codecs : Codecs} {messages : List EncodedMessage} {payload : Bytes}

/-- The loop over a prefix of a message set collects the messages in it. It ends where the prefix
does or at the message that is cut. -/
theorem messageSetLoop_cut {fuel : Nat} (hfuel : messages.length < fuel) (before : Bytes)
    (found : List Message) (hcut : payload <+: (messages.map EncodedMessage.bytes).flatten) :
    messageSetLoop codecs ((before.length : Int) + payload.length) fuel found
        ⟨before ++ payload, before.length⟩ =
      some (.ok (found ++
        (contained EncodedMessage.bytes payload.length messages).map EncodedMessage.message)) := by
  induction messages generalizing fuel before found payload with
  | nil =>
      obtain ⟨fuel, rfl⟩ := Nat.exists_eq_add_of_lt hfuel
      rw [List.map_nil, List.flatten_nil, List.prefix_nil] at hcut
      rw [messageSetLoop, hcut]
      simp [contained]
  | cons encoded messages ih =>
      obtain ⟨fuel, rfl⟩ := Nat.exists_eq_succ_of_ne_zero (Nat.ne_zero_of_lt hfuel)
      rw [List.length_cons] at hfuel
      rw [List.map_cons, List.flatten_cons] at hcut
      have hlength := encoded.length_bytes
      rw [messageSetLoop, contained]
      by_cases hwhole : encoded.bytes.length ≤ payload.length
      · -- the message is there as a whole
        obtain ⟨rest, rfl⟩ := List.prefix_of_prefix_length_le (List.prefix_append _ _) hcut hwhole
        rw [List.prefix_append_right_inj] at hcut
        have hround := decodeEntry_encoded encoded before rest codecs fuel
        have hnext := @ih rest fuel (by omega) (before ++ encoded.bytes)
          (found ++ [encoded.message]) hcut
        simp only [List.append_assoc, List.length_append, Nat.cast_add] at hnext
        rw [Int.add_assoc] at hnext
        rw [if_pos hwhole, if_pos (by simp only [List.length_append]; omega), hround]
        simp only [List.length_append, Nat.cast_add, hnext, Nat.add_sub_cancel_left, List.map_cons,
          List.singleton_append]
      · rw [if_neg hwhole]
        have hcut : payload = encoded.bytes.take payload.length := by
          have htake := List.prefix_iff_eq_take.mp hcut
          rwa [List.take_append_of_le_length (by omega)] at htake
        by_cases hempty : payload.length = 0
        · rw [if_neg (by simp [hempty])]
          simp
        · -- the message is cut
          obtain ⟨message, herror⟩ := entryDecoder_partial encoded before (by omega :
            payload.length < encoded.bytes.length)
          rw [← hcut] at herror
          rw [if_pos (by simp; omega), decodeEntry, herror]
          simp [endsMessageSet, partialMessage]

/-- The decoder makes `messages` of the framed bytes, wherever they stand and whatever follows,
and is left behind them. -/
def DecodesTo (codecs : Codecs) (framed : Bytes) (messages : List Message) : Prop :=
  ∀ before after : Bytes, ∃ fuel, ∀ more ≥ fuel,
    messageSetDecoder codecs more none ⟨before ++ (framed ++ after), before.length⟩ =
      some (.ok (messages,
        ⟨before ++ (framed ++ after), (before.length : Int) + framed.length⟩))

/-- A prefix of a message set behind its size. -/
theorem decodesTo_cut (hlength : payload.length < 2 ^ 31)
    (hcut : payload <+: (messages.map EncodedMessage.bytes).flatten) :
    DecodesTo codecs (intBytes 4 payload.length ++ payload)
      ((contained EncodedMessage.bytes payload.length messages).map EncodedMessage.message) := by
  intro before after
  refine ⟨messages.length + 1, fun fuel hfuel => ?_⟩
  have hsize := @reads_readInt 4 payload.length (by omega) (by omega) before (payload ++ after)
  have hslice := @slice_append (before ++ intBytes 4 payload.length) after payload
  have hloop := @messageSetLoop_cut codecs messages payload fuel (by omega) [] [] hcut
  simp only [List.append_assoc, List.length_append, Nat.cast_add] at hslice hsize ⊢
  have hset : Decoder.slice payload.length ⟨before ++ (intBytes 4 payload.length ++
      (payload ++ after)), (before.length : Int) + (intBytes 4 payload.length).length⟩ =
        Decoder.new payload := by
    rw [Decoder.slice]
    exact congrArg Decoder.new hslice
  have hwhole : messageSetLoop codecs payload.length fuel [] (Decoder.new payload) =
      some (.ok ((contained EncodedMessage.bytes payload.length messages).map
        EncodedMessage.message)) := by
    simpa [Decoder.new] using hloop
  rw [messageSetDecoder, Decoder.readInt32, hsize]
  dsimp only
  rw [hset, hwhole]
  simp [Except.map, Int.add_assoc]

end Prefixes

/-! ## Messages that the encoder writes -/

namespace Entry

variable (version : MessageVersion) (now : Int) (entry : Entry)

/-- The bytes of the timestamp, which only version 1 has. -/
def timestampBytes : Bytes :=
  match version with
  | .v0 => []
  | .v1 => int64Bytes (entry.timestamp.getD now)

/-- The bytes that the checksum covers. -/
def contentBytes : Bytes :=
  intBytes 1 version.magicByte ++ (intBytes 1 (compressionCode entry.compression % 8 : Nat) ++
    (entry.timestampBytes version now ++ (sizedBytes (entry.key.map Payload.bytes) ++
      sizedBytes (entry.value.map Payload.bytes))))

/-- The bytes that the size covers. -/
def messageBytes : Bytes :=
  intBytes 4 (crc32 (entry.contentBytes version now)) ++ entry.contentBytes version now

/-- The message that is decoded. -/
def decoded (offset : Int) : Message :=
  { offset
    size := (entry.messageBytes version now).length
    crc := crc32 (entry.contentBytes version now)
    magicByte := version.magicByte
    attributes := (compressionCode entry.compression % 8 : Nat)
    timestamp := match version with
      | .v0 => none
      | .v1 => some (entry.timestamp.getD now)
    key := entry.key.map Payload.bytes
    value := entry.value.map Payload.bytes }

variable {version now entry}

/-- A key or a value is no longer than the content. -/
theorem payload_le {payload : Payload}
    (h : payload ∈ entry.key ∨ payload ∈ entry.value) :
    payload.bytes.length ≤ (entry.contentBytes version now).length := by
  have hsized : ∀ value : Option Payload, payload ∈ value →
      payload.bytes.length ≤ (sizedBytes (value.map Payload.bytes)).length := by
    rintro _ rfl
    simp [sizedBytes]
  have hlength : (sizedBytes (entry.key.map Payload.bytes)).length +
      (sizedBytes (entry.value.map Payload.bytes)).length ≤
        (entry.contentBytes version now).length := by
    simp only [contentBytes, List.length_append]
    omega
  rcases h with hkey | hvalue
  · have hle := hsized _ hkey
    omega
  · have hle := hsized _ hvalue
    omega

/-- The code of a compression fits in a byte. -/
theorem compression_fits : FitsInt 1 (compressionCode entry.compression % 8 : Nat) := by
  have hlt := Nat.mod_lt (compressionCode entry.compression) (show 8 > 0 by decide)
  exact ⟨by omega, by omega⟩

/-- The content of a message is encoded. -/
theorem content_builds (h : (entry.contentBytes version now).length < 2 ^ 31) :
    Builds (entry.content version now) (entry.contentBytes version now) := by
  have hcompression := @compression_fits entry
  have hkey := @writes_writeNullableBytes entry.key fun payload hpayload =>
    (payload_le (Or.inl hpayload)).trans_lt h
  have hvalue := @writes_writeNullableBytes entry.value fun payload hpayload =>
    (payload_le (Or.inr hpayload)).trans_lt h
  cases version with
  | v0 =>
      have hwrites := (@writes_writeInt 1 0 (by decide) (by decide)).bind
        ((writes_writeInt hcompression.1 hcompression.2).bind
          (Writes.pure.bind (hkey.bind hvalue)))
      exact hwrites.builds
  | v1 =>
      have hwrites := (@writes_writeInt 1 1 (by decide) (by decide)).bind
        ((writes_writeInt hcompression.1 hcompression.2).bind
          ((writes_writeInt64 (entry.timestamp.getD now)).bind (hkey.bind hvalue)))
      exact hwrites.builds

/-- A message has a checksum of four bytes and its content. -/
theorem length_messageBytes :
    (entry.messageBytes version now).length = 4 + (entry.contentBytes version now).length := by
  rw [messageBytes, List.length_append, length_intBytes]

/-- A message is encoded. -/
theorem message_builds : Builds (entry.message version now) (entry.messageBytes version now) := by
  intro hlength
  have htotal := @length_messageBytes version now entry
  refine (content_builds (by omega)).bind (fun content hholds => ?_) (by omega) hlength
  obtain ⟨hlower, hupper⟩ := crc32_bounds content.buffer
  have hwrites := (@writes_writeInt 4 (crc32 content.buffer) (by omega) (by omega)).bind
    (writes_writeBufferInternal content.buffer)
  rw [messageBytes, ← hholds.buffer_eq]
  exact hwrites.builds

/-- The fields of the content, in the order in which the decoder reads them. -/
theorem reads_decodeMessage (h : (entry.contentBytes version now).length < 2 ^ 31)
    (htimestamp : version = .v1 → FitsInt 8 (entry.timestamp.getD now)) (offset : Int) :
    Reads (decodeMessage offset (entry.messageBytes version now).length
        (crc32 (entry.contentBytes version now)) version.magicByte)
      (intBytes 1 (compressionCode entry.compression % 8 : Nat) ++
        (entry.timestampBytes version now ++ (sizedBytes (entry.key.map Payload.bytes) ++
          sizedBytes (entry.value.map Payload.bytes))))
      (entry.decoded version now offset) := by
  have hcompression := @compression_fits entry
  have hkey := @reads_readBytes (entry.key.map Payload.bytes) fun bytes hbytes => by
    obtain ⟨payload, hpayload, rfl⟩ := Option.map_eq_some_iff.mp hbytes
    exact (payload_le (Or.inl hpayload)).trans_lt h
  have hvalue := @reads_readBytes (entry.value.map Payload.bytes) fun bytes hbytes => by
    obtain ⟨payload, hpayload, rfl⟩ := Option.map_eq_some_iff.mp hbytes
    exact (payload_le (Or.inr hpayload)).trans_lt h
  rw [← List.append_nil (sizedBytes (entry.value.map Payload.bytes))]
  cases version with
  | v0 =>
      show Reads (Decoder.readInt 1 >>= fun attributes => _) _ _
      exact (reads_readInt hcompression.1 hcompression.2).bind
        (hkey.bind (hvalue.bind (Reads.pure _)))
  | v1 =>
      obtain ⟨hlower, hupper⟩ := htimestamp rfl
      show Reads (Decoder.readInt 1 >>= fun attributes => _) _ _
      exact (reads_readInt hcompression.1 hcompression.2).bind
        ((reads_readInt64 (by omega) (by omega)).bind (hkey.bind (hvalue.bind (Reads.pure _))))

/-- The decoder of a message undoes its encoder. -/
theorem reads_messageDecoder (h : (entry.messageBytes version now).length < 2 ^ 31)
    (htimestamp : version = .v1 → FitsInt 8 (entry.timestamp.getD now)) (offset : Int) :
    Reads (messageDecoder offset (entry.messageBytes version now).length)
      (entry.messageBytes version now) (entry.decoded version now offset) := by
  intro before after
  have htotal := @length_messageBytes version now entry
  obtain ⟨hlower, hupper⟩ := crc32_bounds (entry.contentBytes version now)
  have hmagic : FitsInt 1 version.magicByte := by
    cases version <;> decide
  have hcontent : Reads (do
      let crc ← Decoder.readInt32
      let magicByte ← Decoder.readInt8
      decodeMessage offset (entry.messageBytes version now).length crc magicByte)
      (entry.messageBytes version now) (entry.decoded version now offset) :=
    (@reads_readInt 4 (crc32 (entry.contentBytes version now)) (by omega) (by omega)).bind
      ((reads_readInt hmagic.1 hmagic.2).bind (reads_decodeMessage (by omega) htimestamp offset))
  show (if _ then _ else _ : Reader Message) _ = _
  rw [if_neg]
  · exact hcontent before after
  · rw [Decoder.slice]
    show ¬ ((slice _ _ _).length : Int) < _
    rw [slice_append]
    omega

/-- The bytes of the message in a set. -/
def bytes (version : MessageVersion) (now : Int) (offset : Int) (entry : Entry) : Bytes :=
  int64Bytes offset ++
    (intBytes 4 (entry.messageBytes version now).length ++ entry.messageBytes version now)

/-- The message as it stands in a set. -/
def encoded {offset : Int} (hoffset : FitsInt 8 offset)
    (hlength : (entry.messageBytes version now).length < 2 ^ 31)
    (htimestamp : version = .v1 → FitsInt 8 (entry.timestamp.getD now))
    (hplain : entry.compression = none) : EncodedMessage where
  offset := offset
  content := entry.messageBytes version now
  message := entry.decoded version now offset
  fits := hoffset
  length := hlength
  decodes := reads_messageDecoder hlength htimestamp offset
  plain codecs := by
    show lookupCodecByAttributes codecs (compressionCode entry.compression % 8 : Nat) = .ok none
    rw [hplain]
    rfl

end Entry

/-! ## Whole sets -/

/-- The offset that the `i`-th message is sent with. -/
def sentOffset (isCompressed : Bool) (i : Nat) : Int := if isCompressed then i else -1

/-- The messages of a set, from the `i`-th on: the bytes of each, and what it is decoded to. -/
def sent (version : MessageVersion) (isCompressed : Bool) (clock : Nat → Int) :
    Nat → List Entry → List (Bytes × Message)
  | _, [] => []
  | i, entry :: entries =>
      (entry.bytes version (clock i) (sentOffset isCompressed i),
        entry.decoded version (clock i) (sentOffset isCompressed i)) ::
          sent version isCompressed clock (i + 1) entries

/-- The values of the entries fit their fields, and no entry is compressed. -/
structure InRange (version : MessageVersion) (clock : Nat → Int) (entries : List Entry) :
    Prop where
  timestamps : version = .v1 → ∀ entry ∈ entries, ∀ timestamp ∈ entry.timestamp,
    FitsInt 8 timestamp
  clock : version = .v1 → ∀ i, FitsInt 8 (clock i)
  plain : ∀ entry ∈ entries, entry.compression = none

section Sets

variable {version : MessageVersion} {isCompressed : Bool} {clock : Nat → Int}
  {entries : List Entry} {i : Nat}

/-- One message of the set, built on the spot. -/
theorem writes_message (entry : Entry) (now offset : Int) :
    Writes (fun encoder => do
      let message ← entry.message version now
      let encoder ← encoder.writeInt64 offset
      let encoder ← encoder.writeInt32 message.size
      encoder.writeEncoder message) (entry.bytes version now offset) := by
  intro encoder data hholds hlength
  have htotal : (entry.bytes version now offset).length =
      12 + (entry.messageBytes version now).length := by
    simp only [Entry.bytes, List.length_append, length_int64Bytes, length_intBytes]
    omega
  rcases @Entry.message_builds version now entry (by omega) with
    ⟨message, hmessage, hbytes⟩ | ⟨hlarge, error, herror⟩
  · have hwrites := (writes_writeInt64 offset).bind
      ((@writes_writeInt 4 message.size (by omega) (by rw [Encoder.size, hbytes.offset]; omega)).bind
        (writes_writeBufferInternal message.buffer))
    have hsame : entry.bytes version now offset =
        int64Bytes offset ++ (intBytes 4 message.size ++ message.buffer) := by
      rw [Entry.bytes, Encoder.size, hbytes.offset, hbytes.buffer_eq]
    rw [hsame] at hlength ⊢
    simp only [hmessage]
    exact hwrites encoder data hholds hlength
  · have hbounded := hholds.bounded
    exact Or.inr ⟨by omega, by omega, error, by simp only [herror]; rfl⟩

/-- The bytes of a set are those of its messages. -/
theorem writes_writeEntries :
    Writes (writeEntries version isCompressed clock i entries)
      ((sent version isCompressed clock i entries).map Prod.fst).flatten := by
  induction entries generalizing i with
  | nil => exact Writes.pure
  | cons entry entries ih =>
      rw [sent, List.map_cons, List.flatten_cons]
      have hwrites := (@writes_message version entry (clock i) (sentOffset isCompressed i)).bind
        (@ih (i + 1))
      intro encoder data hholds hlength
      have hresult := hwrites encoder data hholds hlength
      simp only [bind_assoc] at hresult
      exact hresult

/-- The messages of a set are accepted by the decoder. -/
theorem exists_encoded (hrange : InRange version clock entries) (hcount : i + entries.length < 2 ^ 63)
    (hlength : ((sent version isCompressed clock i entries).map Prod.fst).flatten.length < 2 ^ 31) :
    ∃ messages : List EncodedMessage, sent version isCompressed clock i entries =
      messages.map fun encoded => (encoded.bytes, encoded.message) := by
  induction entries generalizing i with
  | nil => exact ⟨[], rfl⟩
  | cons entry entries ih =>
      rw [sent, List.map_cons, List.flatten_cons, List.length_append] at hlength
      rw [List.length_cons] at hcount
      dsimp only at hlength
      have hmessage : (entry.messageBytes version (clock i)).length ≤
          (entry.bytes version (clock i) (sentOffset isCompressed i)).length := by
        simp only [Entry.bytes, List.length_append]
        omega
      have hoffset : FitsInt 8 (sentOffset isCompressed i) := by
        unfold sentOffset
        split
        · exact ⟨by omega, by omega⟩
        · decide
      have htimestamp : version = .v1 → FitsInt 8 (entry.timestamp.getD (clock i)) := by
        intro hversion
        cases htime : entry.timestamp with
        | none => exact hrange.clock hversion i
        | some timestamp =>
            exact hrange.timestamps hversion entry List.mem_cons_self timestamp htime
      obtain ⟨messages, hmessages⟩ := @ih (i + 1)
        { timestamps := fun hversion other hother =>
            hrange.timestamps hversion other (List.mem_cons_of_mem _ hother)
          clock := hrange.clock
          plain := fun other hother => hrange.plain other (List.mem_cons_of_mem _ hother) }
        (by omega) (by omega)
      refine ⟨Entry.encoded hoffset (by omega) htimestamp
        (hrange.plain entry List.mem_cons_self) :: messages, ?_⟩
      rw [sent, hmessages, List.map_cons]
      rfl

/-- There are no more entries than bytes sent. -/
theorem length_le_sent :
    entries.length ≤ ((sent version isCompressed clock i entries).map Prod.fst).flatten.length := by
  induction entries generalizing i with
  | nil => simp
  | cons entry entries ih =>
      rw [sent, List.map_cons, List.flatten_cons, List.length_append, List.length_cons]
      have hone : 12 ≤ (entry.bytes version (clock i) (sentOffset isCompressed i)).length := by
        simp only [Entry.bytes, List.length_append, length_int64Bytes, length_intBytes]
        omega
      have hrest := @ih (i + 1)
      dsimp only
      omega

end Sets

/-- Every prefix of a message set that fits its 32-bit size, the empty one included, is decoded,
behind its size and in front of any other bytes, to exactly the messages of the set that it wholly
contains, and the decoder is left right behind it. -/
theorem messageSet_decodesTo (codecs : Codecs) {version : MessageVersion}
    {compression : Option (Option CodecType)} {clock : Nat → Int} {entries : List Entry}
    {encoder : Encoder} (hrange : InRange version clock entries)
    (hlength : ((sent version (compression ≠ some none) clock 0 entries).map
      Prod.fst).flatten.length < 2 ^ 31)
    (hok : messageSet version compression clock entries = .ok encoder) :
    encoder.buffer = ((sent version (compression ≠ some none) clock 0 entries).map
      Prod.fst).flatten ∧
    ∀ payload, payload <+: encoder.buffer →
      DecodesTo codecs (intBytes 4 payload.length ++ payload)
        ((contained Prod.fst payload.length
          (sent version (compression ≠ some none) clock 0 entries)).map Prod.snd) := by
  have hbuffer := (writes_writeEntries.builds.holds hlength hok).buffer_eq
  refine ⟨hbuffer, fun payload hprefix => ?_⟩
  have hentries := @length_le_sent version (compression ≠ some none) clock entries 0
  obtain ⟨messages, hmessages⟩ := exists_encoded hrange (by omega) hlength
  rw [hbuffer] at hprefix
  have hpayload := hprefix.length_le
  have hflat : ((sent version (compression ≠ some none) clock 0 entries).map Prod.fst).flatten =
      (messages.map EncodedMessage.bytes).flatten := by
    rw [hmessages, List.map_map]
    rfl
  rw [hflat] at hprefix
  have hdecodes := @decodesTo_cut codecs messages payload (by omega) hprefix
  rw [hmessages, contained_map, List.map_map]
  exact hdecodes

/-- Two entries, one of them without a key. -/
def sampleEntries : List Entry :=
  [{ timestamp := some 1500000000000, key := none, value := some (.string (Text.ofString "v")) },
    { timestamp := some (-1), key := some (.buffer [1, 2]), value := some (.buffer []) }]

/-- Every prefix of the sample set is decoded to its whole messages. -/
theorem messageSet_decodesTo_sample : ∃ encoder,
    messageSet .v1 (some none) (fun _ => 0) sampleEntries = .ok encoder ∧
    ∀ payload, payload <+: encoder.buffer →
      DecodesTo RecordBatch.noCodecs (intBytes 4 payload.length ++ payload)
        ((contained Prod.fst payload.length
          (sent .v1 false (fun _ => 0) 0 sampleEntries)).map Prod.snd) := by
  have hrange : InRange .v1 (fun _ => 0) sampleEntries := by
    refine ⟨fun _ entry hentry timestamp htimestamp => ?_, fun _ _ => by decide, ?_⟩
    · rw [sampleEntries, List.mem_pair] at hentry
      rcases hentry with rfl | rfl
      · cases htimestamp
        decide
      · cases htimestamp
        decide
    · decide
  have hlength : ((sent .v1 (some none ≠ some (none : Option CodecType)) (fun _ => 0) 0
      sampleEntries).map Prod.fst).flatten.length < 2 ^ 31 := by
    decide
  obtain ⟨encoder, hencoder⟩ := ok_of_isSome (show (messageSet .v1 (some none) (fun _ => 0)
    sampleEntries).toOption.isSome by decide +kernel)
  exact ⟨encoder, hencoder,
    (messageSet_decodesTo RecordBatch.noCodecs hrange hlength hencoder).2⟩

end KafkaJs.Protocol.MessageSet
