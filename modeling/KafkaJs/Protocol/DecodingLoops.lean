import KafkaJs.Execution.Rounds
import KafkaJs.Protocol.FetchMessages

/-!
# Decoding loops

How far one round of the loops over record batches and messages moves the decoder. The lengths that
are read count as they are, so a negative one takes the decoder back: a message moves it on exactly
if `LengthsReach`, a record batch exactly if its length exceeds `-12`. `progress_iff` puts this
together for `decodeMessages` and the decoder of message sets, on every input: they end, each round
moving its decoder on, exactly if no round that goes on meets other lengths.
-/

namespace KafkaJs.Protocol

open KafkaJs.Data KafkaJs.Execution

/-! ## What the readers leave behind -/

/-- The signed integer of `width` bytes at an offset. -/
def intAt (width : Nat) (buffer : Bytes) (offset : Int) : Int :=
  (ofBigEndian ((buffer.drop offset.toNat).take width) : Int).bmod (256 ^ width)

/-- The number of bytes that the length at an offset announces: none for null. -/
def lengthAt (buffer : Bytes) (offset : Int) : Int :=
  if intAt 4 buffer offset = -1 then 0 else intAt 4 buffer offset

section Readers

variable {decoder next : Decoder}

/-- A reader that succeeds in two parts. -/
theorem reader_bind_eq_ok {α β : Type} {reader : Reader α} {rest : α → Reader β} {result : β}
    (h : (reader >>= rest) decoder = .ok (result, next)) :
    ∃ value middle, reader decoder = .ok (value, middle) ∧
      rest value middle = .ok (result, next) := by
  obtain ⟨⟨value, middle⟩, hfirst, hrest⟩ := bind_eq_ok h
  exact ⟨value, middle, hfirst, hrest⟩

/-- A reader that throws under a condition and goes on otherwise. -/
theorem reader_guard_ok {α : Type} {condition : Prop} [Decidable condition] {error : KafkaError}
    {rest : Unit → Reader α} {result : α}
    (h : (if condition then (throw error : Reader Unit) >>= rest else rest ()) decoder =
      .ok (result, next)) : rest () decoder = .ok (result, next) := by
  split at h
  · cases h
  · exact h

/-- An integer that is read moves the offset by its width. -/
theorem readInt_ok {width : Nat} {value : Int}
    (h : Decoder.readInt width decoder = .ok (value, next)) :
    value = intAt width decoder.buffer decoder.offset ∧
      next = ⟨decoder.buffer, decoder.offset + width⟩ := by
  unfold Decoder.readInt at h
  split at h
  · cases h
  · obtain ⟨hvalue, hnext⟩ := Prod.mk.inj (Except.ok.inj h)
    exact ⟨hvalue.symm, hnext.symm⟩

/-- An `int64` that is read moves the offset by eight. -/
theorem readInt64_ok {value : Int} (h : Decoder.readInt64 decoder = .ok (value, next)) :
    next = ⟨decoder.buffer, decoder.offset + 8⟩ := by
  unfold Decoder.readInt64 at h
  split at h
  · exact (Prod.mk.inj (Except.ok.inj h)).2.symm
  · cases h

/-- Bytes that are read move the offset by four and their length, whatever its sign. -/
theorem readBytes_ok {value : Option Bytes} (h : Decoder.readBytes decoder = .ok (value, next)) :
    next = ⟨decoder.buffer,
      decoder.offset + 4 + lengthAt decoder.buffer decoder.offset⟩ := by
  obtain ⟨byteLength, middle, hlength, h⟩ := reader_bind_eq_ok h
  obtain ⟨hvalue, hmiddle⟩ := @readInt_ok decoder middle 4 byteLength hlength
  rw [lengthAt, ← hvalue]
  subst hmiddle
  unfold Decoder.readBytesOf at h
  split at h
  · next hnull =>
      rw [if_pos hnull, Int.add_zero]
      exact (Prod.mk.inj (Except.ok.inj h)).2.symm
  · next hsome =>
      rw [if_neg hsome]
      exact (Prod.mk.inj (Except.ok.inj h)).2.symm

end Readers

/-! ## One round -/

/-- The length of the record batch at the offset. -/
def batchLength (decoder : Decoder) : Int := intAt 4 decoder.buffer (decoder.offset + 8)

/-- Reading from a slice leaves the decoder alone. -/
theorem runOn_ok {α : Type} {reader : Reader α} {inner decoder next : Decoder} {value : α}
    (h : runOn reader inner decoder = .ok (value, next)) : next = decoder := by
  unfold runOn at h
  cases hread : reader inner with
  | error error =>
      rw [hread] at h
      cases h
  | ok pair =>
      rw [hread] at h
      exact (Prod.mk.inj (Except.ok.inj h)).2.symm

/-- A batch that is decoded leaves the decoder as far behind its length as the length says. -/
theorem decodeRecordBatch_ok {codecs : Codecs} {decoder next : Decoder}
    {batch : BatchContext × List DecodedRecord}
    (h : decodeRecordBatch codecs decoder = .ok (batch, next)) :
    next = ⟨decoder.buffer, decoder.offset + 12 + batchLength decoder⟩ := by
  unfold decodeRecordBatch at h
  obtain ⟨firstOffset, first, hoffset, h⟩ := reader_bind_eq_ok h
  have hfirst := readInt64_ok hoffset
  subst hfirst
  obtain ⟨length, second, hlength, h⟩ := reader_bind_eq_ok h
  obtain ⟨hvalue, rfl⟩ := @readInt_ok _ second 4 length hlength
  obtain ⟨_, _, hget, h⟩ := reader_bind_eq_ok h
  cases hget
  obtain ⟨_, _, hforward, h⟩ := reader_bind_eq_ok h
  cases hforward
  have hnext := runOn_ok (reader_guard_ok h)
  have hsum : decoder.offset + 8 + (4 : Nat) = decoder.offset + 12 := by omega
  rw [hnext, batchLength, ← hvalue, ← hsum]

/-- A batch moves the decoder on exactly if its length exceeds minus twelve. -/
theorem decodeRecordBatch_advances_iff {codecs : Codecs} {decoder next : Decoder}
    {batch : BatchContext × List DecodedRecord}
    (h : decodeRecordBatch codecs decoder = .ok (batch, next)) :
    decoder.offset < next.offset ↔ -12 < batchLength decoder := by
  have hmoves : ∀ before after length : Int, after = before + 12 + length →
      (before < after ↔ -12 < length) := by omega
  exact hmoves _ _ _ (congrArg Decoder.offset (decodeRecordBatch_ok h))

namespace MessageSet

/-- The bytes of an entry in front of its key length: offset, size, checksum, magic byte and
attributes, and the timestamp of version 1. -/
def headLength (decoder : Decoder) : Int :=
  if intAt 1 decoder.buffer (decoder.offset + 16) = 1 then 26 else 18

/-- The key length of the entry. -/
def keyLength (decoder : Decoder) : Int :=
  lengthAt decoder.buffer (decoder.offset + headLength decoder)

/-- The value length of the entry, which stands behind the key. -/
def valueLength (decoder : Decoder) : Int :=
  lengthAt decoder.buffer (decoder.offset + headLength decoder + 4 + keyLength decoder)

/-- The two lengths do not take back all the bytes that the entry has without them. -/
def LengthsReach (decoder : Decoder) : Prop :=
  -(headLength decoder + 8) < keyLength decoder + valueLength decoder

variable {decoder next : Decoder} {message : Message}

/-- The attributes and the timestamp, then the two byte fields. -/
theorem decodeMessage_ok {offset size crc magicByte : Int}
    (h : decodeMessage offset size crc magicByte decoder = .ok (message, next)) :
    let start := decoder.offset + 1 + if magicByte = 1 then 8 else 0
    next = ⟨decoder.buffer, start + 4 + lengthAt decoder.buffer start + 4 +
      lengthAt decoder.buffer (start + 4 + lengthAt decoder.buffer start)⟩ := by
  unfold decodeMessage at h
  split at h
  · obtain ⟨attributes, first, hattributes, h⟩ := reader_bind_eq_ok h
    obtain ⟨key, second, hkey, h⟩ := reader_bind_eq_ok h
    obtain ⟨value, third, hvalue, h⟩ := reader_bind_eq_ok h
    obtain ⟨_, rfl⟩ := @readInt_ok decoder first 1 attributes hattributes
    have hsecond := readBytes_ok hkey
    subst hsecond
    have hthird := readBytes_ok hvalue
    subst hthird
    have hnext := (Prod.mk.inj (Except.ok.inj h)).2
    rw [← hnext]
    simp
  · obtain ⟨attributes, first, hattributes, h⟩ := reader_bind_eq_ok h
    obtain ⟨timestamp, stamped, htimestamp, h⟩ := reader_bind_eq_ok h
    obtain ⟨key, second, hkey, h⟩ := reader_bind_eq_ok h
    obtain ⟨value, third, hvalue, h⟩ := reader_bind_eq_ok h
    obtain ⟨_, rfl⟩ := @readInt_ok decoder first 1 attributes hattributes
    have hstamped := readInt64_ok htimestamp
    subst hstamped
    have hsecond := readBytes_ok hkey
    subst hsecond
    have hthird := readBytes_ok hvalue
    subst hthird
    have hnext := (Prod.mk.inj (Except.ok.inj h)).2
    rw [← hnext]
    simp
  · cases h

/-- An entry that is decoded leaves the decoder behind its two byte fields. -/
theorem entryDecoder_ok (h : entryDecoder decoder = .ok (message, next)) :
    next = ⟨decoder.buffer, decoder.offset + headLength decoder + 8 + keyLength decoder +
      valueLength decoder⟩ := by
  unfold entryDecoder at h
  obtain ⟨_, _, hget, h⟩ := reader_bind_eq_ok h
  cases hget
  have h := reader_guard_ok h
  obtain ⟨offset, first, hoffset, h⟩ := reader_bind_eq_ok h
  have hfirst := readInt64_ok hoffset
  subst hfirst
  obtain ⟨_, _, hget, h⟩ := reader_bind_eq_ok h
  cases hget
  have h := reader_guard_ok h
  obtain ⟨size, second, hsize, h⟩ := reader_bind_eq_ok h
  obtain ⟨_, rfl⟩ := @readInt_ok _ second 4 size hsize
  unfold messageDecoder at h
  obtain ⟨_, _, hget, h⟩ := reader_bind_eq_ok h
  cases hget
  have h := reader_guard_ok h
  obtain ⟨crc, third, hcrc, h⟩ := reader_bind_eq_ok h
  obtain ⟨_, rfl⟩ := @readInt_ok _ third 4 crc hcrc
  obtain ⟨magicByte, fourth, hmagic, h⟩ := reader_bind_eq_ok h
  obtain ⟨hvalue, rfl⟩ := @readInt_ok _ fourth 1 magicByte hmagic
  have hnext := decodeMessage_ok h
  -- a timestamp is there only in version one
  have hhead : decoder.offset + 8 + (4 : Nat) + (4 : Nat) + (1 : Nat) + 1 +
      (if magicByte = 1 then 8 else 0) = decoder.offset + headLength decoder := by
    rw [headLength, hvalue]
    have hsame : decoder.offset + 8 + (4 : Nat) + (4 : Nat) = decoder.offset + 16 := by omega
    dsimp only
    rw [hsame]
    split <;> omega
  dsimp only at hnext
  rw [hhead] at hnext
  have hsum : ∀ head key value : Int, head + 4 + key + 4 + value = head + 8 + key + value := by
    omega
  rw [← hsum, keyLength, valueLength, keyLength]
  exact hnext

/-- An entry moves the decoder on exactly if its lengths do not take back more than that. -/
theorem entryDecoder_advances_iff (h : entryDecoder decoder = .ok (message, next)) :
    decoder.offset < next.offset ↔ LengthsReach decoder := by
  have hmoves : ∀ before after head key value : Int, after = before + head + 8 + key + value →
      (before < after ↔ -(head + 8) < key + value) := by omega
  exact hmoves _ _ _ _ _ (congrArg Decoder.offset (entryDecoder_ok h))

/-! ## The loops over messages -/

/-- A round of the loop of `EntriesDecoder` that does not throw. -/
def EntriesRound (before after : Decoder) : Prop :=
  before.offset < before.buffer.length ∧ ∃ message, entryDecoder before = .ok (message, after)

/-- A round of the loop over the message set that neither throws nor breaks. -/
def SetRound (codecs : Codecs) (messageSetSize : Int) (before after : Decoder) : Prop :=
  before.offset < messageSetSize ∧
    ∃ fuel messages, decodeEntry codecs fuel before = some (.ok (messages, after))

/-- A round of the loop over the message set decodes the entries in `buffer`, which was
decompressed from the value of a message. -/
def Opens (codecs : Codecs) (messageSetSize : Int) (decoder : Decoder) (buffer : Bytes) : Prop :=
  decoder.offset < messageSetSize ∧ ∃ message next codec,
    entryDecoder decoder = .ok (message, next) ∧
    lookupCodecByAttributes codecs message.attributes = .ok (some codec) ∧
    decompressValue codec message.value = .ok buffer

/-- The rounds that the loop over a message set comes to, with those of the loops over compressed
entries in it. -/
inductive Rounds (codecs : Codecs) (messageSetSize : Int) (start : Decoder) :
    Decoder → Decoder → Prop where
  | message {before after : Decoder}
      (hreach : Reaches (SetRound codecs messageSetSize) start before)
      (hround : SetRound codecs messageSetSize before after) :
      Rounds codecs messageSetSize start before after
  | compressed {decoder before after : Decoder} {buffer : Bytes}
      (hreach : Reaches (SetRound codecs messageSetSize) start decoder)
      (hopens : Opens codecs messageSetSize decoder buffer)
      (hinner : Reaches EntriesRound (Decoder.new buffer) before)
      (hround : EntriesRound before after) :
      Rounds codecs messageSetSize start before after

section Loops

variable {codecs : Codecs} {messageSetSize : Int} {start before after : Decoder}
  {messages : List Message} {fuel more : Nat}

/-- A round of the loop over the message set fails, has a plain message, or decodes what a message
has compressed. Only then it depends on the fuel. -/
theorem decodeEntry_cases (codecs : Codecs) (decoder : Decoder) :
    (∃ error, ∀ fuel, decodeEntry codecs fuel decoder = some (.error error)) ∨
    (∃ message next, entryDecoder decoder = .ok (message, next) ∧
      ∀ fuel, decodeEntry codecs fuel decoder = some (.ok ([message], next))) ∨
    ∃ message next codec buffer, entryDecoder decoder = .ok (message, next) ∧
      lookupCodecByAttributes codecs message.attributes = .ok (some codec) ∧
      decompressValue codec message.value = .ok buffer ∧
      ∀ fuel, decodeEntry codecs fuel decoder =
        (entriesDecoder fuel (Decoder.new buffer) message).map fun messages =>
          messages.map fun messages => (messages, next) := by
  cases hentry : entryDecoder decoder with
  | error error => exact Or.inl ⟨error, fun fuel => by rw [decodeEntry, hentry]⟩
  | ok pair =>
      obtain ⟨message, next⟩ := pair
      cases hcodec : lookupCodecByAttributes codecs message.attributes with
      | error error => exact Or.inl ⟨error, fun fuel => by simp only [decodeEntry, hentry, hcodec]⟩
      | ok found =>
          cases found with
          | none =>
              exact Or.inr (Or.inl ⟨message, next, rfl, fun fuel => by
                simp only [decodeEntry, hentry, hcodec]⟩)
          | some codec =>
              cases hbuffer : decompressValue codec message.value with
              | error error =>
                  exact Or.inl ⟨error, fun fuel => by
                    simp only [decodeEntry, hentry, hcodec, hbuffer]⟩
              | ok buffer =>
                  exact Or.inr (Or.inr ⟨message, next, codec, buffer, rfl, hcodec, hbuffer,
                    fun fuel => by simp only [decodeEntry, hentry, hcodec, hbuffer]⟩)

/-- A round that goes on has decoded one entry of the message set. -/
theorem decodeEntry_ok (h : decodeEntry codecs fuel before = some (.ok (messages, after))) :
    ∃ message, entryDecoder before = .ok (message, after) := by
  rcases decodeEntry_cases codecs before with ⟨error, hround⟩ | ⟨message, next, hentry, hround⟩ |
    ⟨message, next, codec, buffer, hentry, _, _, hround⟩
  · rw [hround] at h
    cases h
  · rw [hround] at h
    cases h
    exact ⟨message, hentry⟩
  · rw [hround] at h
    obtain ⟨result, _, hresult⟩ := Option.map_eq_some_iff.mp h
    cases result with
    | error error => cases hresult
    | ok decoded =>
        cases hresult
        exact ⟨message, hentry⟩

/-- Each round decodes one entry. -/
theorem Rounds.decodes (h : Rounds codecs messageSetSize start before after) :
    ∃ message, entryDecoder before = .ok (message, after) := by
  cases h with
  | message _ hround =>
      obtain ⟨_, _, messages, hentry⟩ := hround
      exact decodeEntry_ok hentry
  | compressed _ _ _ hround => exact hround.2

/-- Each round moves the decoder on exactly if the lengths of its entry reach. -/
theorem Rounds.advances_iff (h : Rounds codecs messageSetSize start before after) :
    before.offset < after.offset ↔ LengthsReach before := by
  obtain ⟨message, hentry⟩ := h.decodes
  exact entryDecoder_advances_iff hentry

/-- More fuel does not change what the loop over compressed entries comes to. -/
theorem entriesLoop_mono {result : Except KafkaError (List Message)}
    (h : entriesLoop fuel messages before = some result) (hle : fuel ≤ more) :
    entriesLoop more messages before = some result := by
  induction fuel generalizing more messages before with
  | zero => cases h
  | succ fuel ih =>
      obtain ⟨more, rfl⟩ := Nat.exists_eq_succ_of_ne_zero (Nat.ne_zero_of_lt hle)
      rw [entriesLoop] at h ⊢
      split at h
      · next hoffset =>
          rw [if_pos hoffset]
          cases hentry : entryDecoder before with
          | error error =>
              rw [hentry] at h
              exact h
          | ok pair =>
              rw [hentry] at h
              exact ih h (Nat.le_of_succ_le_succ hle)
      · next hoffset =>
          rw [if_neg hoffset]
          exact h

/-- More fuel does not change the result of an entry. -/
theorem decodeEntry_mono {result : Except KafkaError (List Message × Decoder)}
    (h : decodeEntry codecs fuel before = some result) (hle : fuel ≤ more) :
    decodeEntry codecs more before = some result := by
  rcases decodeEntry_cases codecs before with ⟨error, hround⟩ | ⟨message, next, _, hround⟩ |
    ⟨message, next, codec, buffer, _, _, _, hround⟩
  · rw [hround] at h ⊢
    exact h
  · rw [hround] at h ⊢
    exact h
  · rw [hround, entriesDecoder] at h ⊢
    obtain ⟨decoded, hdecoded, hresult⟩ := Option.map_eq_some_iff.mp h
    obtain ⟨entries, hentries, hoffsets⟩ := Option.map_eq_some_iff.mp hdecoded
    rw [entriesLoop_mono hentries hle, Option.map_some, hoffsets, Option.map_some, hresult]

/-- More fuel does not change what the loop over the message set comes to. -/
theorem messageSetLoop_mono {result : Except KafkaError (List Message)}
    (h : messageSetLoop codecs messageSetSize fuel messages before = some result)
    (hle : fuel ≤ more) :
    messageSetLoop codecs messageSetSize more messages before = some result := by
  induction fuel generalizing more messages before with
  | zero => cases h
  | succ fuel ih =>
      obtain ⟨more, rfl⟩ := Nat.exists_eq_succ_of_ne_zero (Nat.ne_zero_of_lt hle)
      have hless := Nat.le_of_succ_le_succ hle
      rw [messageSetLoop] at h ⊢
      split at h
      · next hoffset =>
          rw [if_pos hoffset]
          cases hround : decodeEntry codecs fuel before with
          | none =>
              rw [hround] at h
              cases h
          | some outcome =>
              rw [decodeEntry_mono hround hless]
              rw [hround] at h
              cases outcome with
              | error error => exact h
              | ok pair => exact ih h hless
      · next hoffset =>
          rw [if_neg hoffset]
          exact h

/-- Rounds over compressed entries stay in one buffer. -/
theorem buffer_of_reaches (h : Reaches EntriesRound start before) :
    before.buffer = start.buffer := by
  induction h with
  | refl => rfl
  | tail _ hround ih =>
      obtain ⟨_, message, hentry⟩ := hround
      rw [entryDecoder_ok hentry]
      exact ih

/-- A loop over compressed entries that advances ends. -/
theorem entriesLoop_ends (h : Advances EntriesRound Decoder.offset start)
    (messages : List Message) : ∃ fuel result, entriesLoop fuel messages start = some result := by
  have hbound : ∀ before after, Reaches EntriesRound start before → EntriesRound before after →
      before.offset < start.buffer.length := by
    intro before after hreach hround
    rw [← buffer_of_reaches hreach]
    exact hround.1
  refine progress_induction (motive := fun decoder => ∀ messages, ∃ fuel result,
    entriesLoop fuel messages decoder = some result) h hbound (fun decoder _ ih messages => ?_)
    messages
  by_cases hoffset : decoder.offset < decoder.buffer.length
  · cases hentry : entryDecoder decoder with
    | error error =>
        refine ⟨1, .error error, ?_⟩
        rw [entriesLoop, if_pos hoffset, hentry]
    | ok pair =>
        obtain ⟨message, next⟩ := pair
        obtain ⟨fuel, result, hrest⟩ := ih next ⟨hoffset, message, hentry⟩ (messages ++ [message])
        refine ⟨fuel + 1, result, ?_⟩
        rw [entriesLoop, if_pos hoffset, hentry]
        exact hrest
  · refine ⟨1, .ok messages, ?_⟩
    rw [entriesLoop, if_neg hoffset]

/-- A round of the loop over a message set ends where the loop over compressed entries in it
does. -/
theorem decodeEntry_ends (h : ∀ buffer, Opens codecs messageSetSize before buffer →
      Advances EntriesRound Decoder.offset (Decoder.new buffer))
    (hoffset : before.offset < messageSetSize) :
    ∃ fuel result, decodeEntry codecs fuel before = some result := by
  rcases decodeEntry_cases codecs before with ⟨error, hround⟩ | ⟨message, next, _, hround⟩ |
    ⟨message, next, codec, buffer, hentry, hcodec, hbuffer, hround⟩
  · exact ⟨0, .error error, hround 0⟩
  · exact ⟨0, .ok ([message], next), hround 0⟩
  · obtain ⟨fuel, result, hloop⟩ := entriesLoop_ends
      (h buffer ⟨hoffset, message, next, codec, hentry, hcodec, hbuffer⟩) []
    refine ⟨fuel, (result >>= absoluteOffsets message).map fun decoded => (decoded, next), ?_⟩
    rw [hround, entriesDecoder, hloop]
    rfl

/-- A loop over a message set whose rounds all advance ends. -/
theorem messageSetLoop_ends
    (h : ∀ before after, Rounds codecs messageSetSize start before after →
      before.offset < after.offset) (messages : List Message) :
    ∃ fuel result, messageSetLoop codecs messageSetSize fuel messages start = some result := by
  have hadvances : Advances (SetRound codecs messageSetSize) Decoder.offset start :=
    fun before after hreach hround => h before after (.message hreach hround)
  -- the induction is on what is left of the set, and the messages found so far are arbitrary
  refine progress_induction (motive := fun decoder => ∀ messages, ∃ fuel result,
    messageSetLoop codecs messageSetSize fuel messages decoder = some result) hadvances
    (fun before after _ hround => hround.1) (fun decoder hreach ih messages => ?_) messages
  by_cases hoffset : decoder.offset < messageSetSize
  · obtain ⟨fuel, outcome, hround⟩ := decodeEntry_ends
      (fun buffer hopens before after hinner hround =>
        h _ _ (.compressed hreach hopens hinner hround)) hoffset
    cases outcome with
    | error error =>
        by_cases hends : endsMessageSet error
        · refine ⟨fuel + 1, .ok messages, ?_⟩
          rw [messageSetLoop, if_pos hoffset, hround]
          exact if_pos hends
        · refine ⟨fuel + 1, .error error, ?_⟩
          rw [messageSetLoop, if_pos hoffset, hround]
          exact if_neg hends
    | ok pair =>
        obtain ⟨decoded, next⟩ := pair
        obtain ⟨rest, result, hrest⟩ :=
          ih next ⟨hoffset, fuel, decoded, hround⟩ (messages ++ decoded)
        refine ⟨max fuel rest + 1, result, ?_⟩
        rw [messageSetLoop, if_pos hoffset, decodeEntry_mono hround (le_max_left _ _)]
        exact messageSetLoop_mono hrest (le_max_right _ _)
  · refine ⟨1, .ok messages, ?_⟩
    rw [messageSetLoop, if_neg hoffset]

end Loops

/-! ## The decoder of message sets -/

/-- The size that the decoder goes by: zero counts as none. -/
def readSetSize : Option Int → Reader Int
  | some size => if size = 0 then Decoder.readInt32 else pure size
  | none => Decoder.readInt32

/-- The decoder of message sets in two parts. -/
theorem messageSetDecoder_eq (codecs : Codecs) (fuel : Nat) (size : Option Int)
    (primaryDecoder : Decoder) :
    messageSetDecoder codecs fuel size primaryDecoder =
      match readSetSize size primaryDecoder with
      | .error error => some (.error error)
      | .ok (messageSetSize, primaryDecoder) =>
          (messageSetLoop codecs messageSetSize fuel [] (primaryDecoder.slice messageSetSize)).map
            fun messages => messages.map fun messages =>
              (messages, { primaryDecoder with offset := primaryDecoder.offset + messageSetSize }) := by
  cases size <;> rfl

/-- The rounds that the decoder of message sets comes to. -/
def DecoderRounds (codecs : Codecs) (size : Option Int) (primaryDecoder before after : Decoder) :
    Prop :=
  ∃ messageSetSize sized, readSetSize size primaryDecoder = .ok (messageSetSize, sized) ∧
    Rounds codecs messageSetSize (sized.slice messageSetSize) before after

/-- The decoder of message sets returns or throws, and all its rounds move on. -/
structure Progresses (codecs : Codecs) (size : Option Int) (primaryDecoder : Decoder) : Prop where
  ends : ∃ fuel result, messageSetDecoder codecs fuel size primaryDecoder = some result
  advances : ∀ before after, DecoderRounds codecs size primaryDecoder before after →
    before.offset < after.offset

/-- Message sets are decoded with progress exactly if all lengths reach far enough. -/
theorem progresses_iff {codecs : Codecs} {size : Option Int} {primaryDecoder : Decoder} :
    Progresses codecs size primaryDecoder ↔
      ∀ before after, DecoderRounds codecs size primaryDecoder before after →
        LengthsReach before := by
  constructor
  · intro hprogresses before after hround
    have hadvances := hprogresses.advances before after hround
    obtain ⟨_, _, _, hround⟩ := hround
    exact hround.advances_iff.mp hadvances
  · intro hreach
    -- the lengths reach in every round, so every round moves on
    have hadvances : ∀ before after, DecoderRounds codecs size primaryDecoder before after →
        before.offset < after.offset := by
      intro before after hround
      have hlengths := hreach before after hround
      obtain ⟨_, _, _, hround⟩ := hround
      exact hround.advances_iff.mpr hlengths
    refine ⟨?_, hadvances⟩
    cases hsize : readSetSize size primaryDecoder with
    | error error => exact ⟨0, .error error, by rw [messageSetDecoder_eq, hsize]⟩
    | ok pair =>
        obtain ⟨messageSetSize, sized⟩ := pair
        obtain ⟨fuel, result, hloop⟩ := messageSetLoop_ends (fun before after hround =>
          hadvances before after ⟨messageSetSize, sized, hsize, hround⟩) []
        refine ⟨fuel, result.map fun messages =>
          (messages, { sized with offset := sized.offset + messageSetSize }), ?_⟩
        rw [messageSetDecoder_eq, hsize]
        dsimp only
        rw [hloop]
        rfl

end MessageSet

/-! ## The record field -/

/-- A round of the loop over the record batches that neither throws nor breaks. -/
def BatchRound (maxArguments : Nat) (codecs : Codecs) (before after : Decoder) : Prop :=
  before.canReadBytes recordBatchOverhead ∧
    ∃ records messages, decodeBatch maxArguments codecs records before = .ok (messages, after)

/-- Such a round has decoded a batch. -/
theorem decodeBatch_ok {maxArguments : Nat} {codecs : Codecs}
    {records messages : List PartitionMessage} {before after : Decoder}
    (h : decodeBatch maxArguments codecs records before = .ok (messages, after)) :
    ∃ batch, decodeRecordBatch codecs before = .ok (batch, after) := by
  unfold decodeBatch at h
  cases hbatch : decodeRecordBatch codecs before with
  | error error =>
      rw [hbatch] at h
      cases h
  | ok pair =>
      obtain ⟨⟨batchContext, batch⟩, next⟩ := pair
      rw [hbatch] at h
      dsimp only at h
      cases hpush : pushRecords maxArguments records (recordsIn batchContext batch) with
      | error error =>
          rw [hpush] at h
          cases h
      | ok pushed =>
          rw [hpush] at h
          cases h
          exact ⟨_, rfl⟩

/-- A loop over record batches that advances ends. -/
theorem recordBatchesLoop_ends {maxArguments : Nat} {codecs : Codecs} {start : Decoder}
    (h : Advances (BatchRound maxArguments codecs) Decoder.offset start)
    (records : List PartitionMessage) :
    ∃ fuel result, recordBatchesLoop maxArguments codecs fuel records start = some result := by
  -- a round changes the position in the buffer and never the buffer
  have hbuffer : ∀ decoder, Reaches (BatchRound maxArguments codecs) start decoder →
      decoder.buffer = start.buffer := by
    intro decoder hreach
    induction hreach with
    | refl => rfl
    | tail _ hround ih =>
        obtain ⟨_, _, _, hdecoded⟩ := hround
        obtain ⟨batch, hbatch⟩ := decodeBatch_ok hdecoded
        rw [decodeRecordBatch_ok hbatch]
        exact ih
  -- a round begins only where the head of a batch fits
  have hbound : ∀ before after, Reaches (BatchRound maxArguments codecs) start before →
      BatchRound maxArguments codecs before after → before.offset < start.buffer.length := by
    intro before after hreach hround
    have hroom : (before.buffer.length : Int) - before.offset ≥ 49 := of_decide_eq_true hround.1
    rw [hbuffer before hreach] at hroom
    omega
  refine progress_induction (motive := fun decoder => ∀ records, ∃ fuel result,
    recordBatchesLoop maxArguments codecs fuel records decoder = some result) h hbound
    (fun decoder _ ih records => ?_) records
  by_cases hroom : decoder.canReadBytes recordBatchOverhead
  · cases hbatch : decodeBatch maxArguments codecs records decoder with
    | error error =>
        by_cases hpartial : error.name = .kafkaJSPartialMessageError
        · refine ⟨1, .ok records, ?_⟩
          rw [recordBatchesLoop, if_pos hroom, hbatch]
          exact if_pos hpartial
        · refine ⟨1, .error error, ?_⟩
          rw [recordBatchesLoop, if_pos hroom, hbatch]
          exact if_neg hpartial
    | ok pair =>
        obtain ⟨messages, next⟩ := pair
        obtain ⟨fuel, result, hrest⟩ := ih next ⟨hroom, _, _, hbatch⟩ messages
        refine ⟨fuel + 1, result, ?_⟩
        rw [recordBatchesLoop, if_pos hroom, hbatch]
        exact hrest
  · refine ⟨1, .ok records, ?_⟩
    rw [recordBatchesLoop, if_neg hroom]

/-- `decodeMessages` takes `buffer` as the record field. -/
def OpensField (readSize : Reader Int) (decoder : Decoder) (messagesSize : Int)
    (buffer : Bytes) : Prop :=
  ∃ sized next, readSize decoder = .ok (messagesSize, sized) ∧
    ¬ (messagesSize ≤ 0 ∨ ¬ sized.canReadBytes messagesSize) ∧
    Decoder.readBytesOf messagesSize sized = .ok (some buffer, next)

/-- The magic byte of a record field. -/
def HasMagic (buffer : Bytes) (magicByte : Int) : Prop :=
  ∃ next, Decoder.readInt8 (Decoder.new (slice buffer magicOffset buffer.length)) =
    .ok (magicByte, next)

/-- The rounds over record batches that `decodeMessages` comes to. -/
def BatchRounds (readSize : Reader Int) (maxArguments : Nat) (codecs : Codecs)
    (decoder before after : Decoder) : Prop :=
  ∃ messagesSize buffer, OpensField readSize decoder messagesSize buffer ∧ HasMagic buffer 2 ∧
    Reaches (BatchRound maxArguments codecs) (Decoder.new buffer) before ∧
      BatchRound maxArguments codecs before after

/-- The rounds over messages that `decodeMessages` comes to. -/
def MessageRounds (readSize : Reader Int) (codecs : Codecs) (decoder before after : Decoder) :
    Prop :=
  ∃ messagesSize buffer magicByte, OpensField readSize decoder messagesSize buffer ∧
    HasMagic buffer magicByte ∧ magicByte ≠ 2 ∧
    MessageSet.DecoderRounds codecs (some messagesSize) (Decoder.new buffer) before after

/-- `decodeMessages` returns or throws, and all its rounds move on. -/
structure FieldProgresses (readSize : Reader Int) (maxArguments : Nat) (codecs : Codecs)
    (decoder : Decoder) : Prop where
  ends : ∃ fuel result, decodeMessages readSize maxArguments codecs fuel decoder = some result
  batches : ∀ before after, BatchRounds readSize maxArguments codecs decoder before after →
    before.offset < after.offset
  messages : ∀ before after, MessageRounds readSize codecs decoder before after →
    before.offset < after.offset

section Field

variable {readSize : Reader Int} {maxArguments : Nat} {codecs : Codecs}
  {decoder before after : Decoder}

/-- Each round moves the decoder on exactly if the length of its batch exceeds minus twelve. -/
theorem BatchRounds.advances_iff (h : BatchRounds readSize maxArguments codecs decoder before after) :
    before.offset < after.offset ↔ -12 < batchLength before := by
  obtain ⟨_, _, _, _, _, _, _, _, hdecoded⟩ := h
  obtain ⟨batch, hbatch⟩ := decodeBatch_ok hdecoded
  exact decodeRecordBatch_advances_iff hbatch

/-- Each round moves the decoder on exactly if the lengths of its message reach. -/
theorem MessageRounds.advances_iff (h : MessageRounds readSize codecs decoder before after) :
    before.offset < after.offset ↔ MessageSet.LengthsReach before := by
  obtain ⟨_, _, _, _, _, _, _, _, _, hround⟩ := h
  exact hround.advances_iff

/-- The buffer of a record field is decoded to an end if the rounds move on. -/
theorem decodeBuffer_ends {messagesSize : Int} {buffer : Bytes}
    (hopens : OpensField readSize decoder messagesSize buffer)
    (hbatches : ∀ before after, BatchRounds readSize maxArguments codecs decoder before after →
      before.offset < after.offset)
    (hmessages : ∀ before after, MessageRounds readSize codecs decoder before after →
      before.offset < after.offset) :
    ∃ fuel result, decodeBuffer maxArguments codecs fuel messagesSize buffer = some result := by
  cases hmagic : Decoder.readInt8 (Decoder.new (slice buffer magicOffset buffer.length)) with
  | error error => exact ⟨0, .error error, by rw [decodeBuffer, hmagic]⟩
  | ok pair =>
      obtain ⟨magicByte, next⟩ := pair
      -- the magic byte decides between record batches and a message set
      by_cases htwo : magicByte = 2
      · subst htwo
        obtain ⟨fuel, result, hloop⟩ := recordBatchesLoop_ends (fun before after hreach hround =>
          hbatches before after ⟨messagesSize, buffer, hopens, ⟨next, hmagic⟩, hreach, hround⟩) []
        refine ⟨fuel, result, ?_⟩
        rw [decodeBuffer, hmagic]
        dsimp only
        rw [if_pos rfl, hloop]
      · have hset : MessageSet.Progresses codecs (some messagesSize) (Decoder.new buffer) := by
          rw [MessageSet.progresses_iff]
          intro before after hround
          have hrounds : MessageRounds readSize codecs decoder before after :=
            ⟨messagesSize, buffer, magicByte, hopens, ⟨next, hmagic⟩, htwo, hround⟩
          exact hrounds.advances_iff.mp (hmessages before after hrounds)
        obtain ⟨fuel, result, hloop⟩ := hset.ends
        refine ⟨fuel, result.map fun messages => messages.1.map .message, ?_⟩
        rw [decodeBuffer, hmagic]
        dsimp only
        rw [if_neg htwo, hloop]
        rfl

/-- `decodeMessages` comes to an end if its rounds move on. -/
theorem decodeMessages_ends
    (hbatches : ∀ before after, BatchRounds readSize maxArguments codecs decoder before after →
      before.offset < after.offset)
    (hmessages : ∀ before after, MessageRounds readSize codecs decoder before after →
      before.offset < after.offset) :
    ∃ fuel result, decodeMessages readSize maxArguments codecs fuel decoder = some result := by
  cases hsize : readSize decoder with
  | error error => exact ⟨0, .error error, by rw [decodeMessages, hsize]⟩
  | ok pair =>
      obtain ⟨messagesSize, sized⟩ := pair
      by_cases hstop : messagesSize ≤ 0 ∨ ¬ sized.canReadBytes messagesSize
      · refine ⟨0, .ok ([], sized), ?_⟩
        rw [decodeMessages, hsize]
        exact if_pos hstop
      · have hbytes : Decoder.readBytesOf messagesSize sized =
            .ok (some (slice sized.buffer sized.offset (sized.offset + messagesSize)),
              ⟨sized.buffer, sized.offset + messagesSize⟩) := by
          rw [Decoder.readBytesOf, if_neg (by omega)]
          rfl
        obtain ⟨fuel, result, hloop⟩ :=
          decodeBuffer_ends ⟨sized, _, hsize, hstop, hbytes⟩ hbatches hmessages
        refine ⟨fuel, result.map fun messages =>
          (messages, ⟨sized.buffer, sized.offset + messagesSize⟩), ?_⟩
        rw [decodeMessages, hsize]
        dsimp only
        rw [if_neg hstop, hbytes]
        dsimp only
        rw [hloop]
        rfl

/-- The decoders of a record field, with either reader of its size, and of a message set end with
every round moving on exactly if every record batch that is decoded has a length above `-12`, and
the lengths of every message that is decoded reach. -/
theorem progress_iff (maxArguments : Nat) (codecs : Codecs) (decoder : Decoder) :
    (∀ readSize : Reader Int, FieldProgresses readSize maxArguments codecs decoder ↔
      (∀ before after, BatchRounds readSize maxArguments codecs decoder before after →
        -12 < batchLength before) ∧
      ∀ before after, MessageRounds readSize codecs decoder before after →
        MessageSet.LengthsReach before) ∧
    ∀ size, MessageSet.Progresses codecs size decoder ↔
      ∀ before after, MessageSet.DecoderRounds codecs size decoder before after →
        MessageSet.LengthsReach before := by
  refine ⟨fun readSize => ⟨?_, ?_⟩, fun size => MessageSet.progresses_iff⟩
  · intro hprogresses
    refine ⟨fun before after hround => ?_, fun before after hround => ?_⟩
    · exact hround.advances_iff.mp (hprogresses.batches before after hround)
    · exact hround.advances_iff.mp (hprogresses.messages before after hround)
  · rintro ⟨hlengths, hreach⟩
    have hbatches : ∀ before after, BatchRounds readSize maxArguments codecs decoder before after →
        before.offset < after.offset :=
      fun before after hround => hround.advances_iff.mpr (hlengths before after hround)
    have hmessages : ∀ before after, MessageRounds readSize codecs decoder before after →
        before.offset < after.offset :=
      fun before after hround => hround.advances_iff.mpr (hreach before after hround)
    exact ⟨decodeMessages_ends hbatches hmessages, hbatches, hmessages⟩

end Field

/-! ## A message that takes the decoder back to its start -/

/-- A message of version 0 with the key length `-22` and, at the start, the value length `-4`. -/
def rewindingEntry : Bytes :=
  intBytes 4 (-4) ++ (intBytes 4 0 ++ (intBytes 4 10 ++ (intBytes 4 0 ++
    (intBytes 1 0 ++ (intBytes 1 0 ++ intBytes 4 (-22))))))

/-- The message. -/
def rewindingMessage : Message :=
  { offset := -4 * 2 ^ 32, size := 10, crc := 0, magicByte := 0, attributes := 0
    timestamp := none, key := some [], value := some [] }

/-- The entry of the rewinding message set is read, and the decoder is back at its start. -/
theorem entryDecoder_rewinding : MessageSet.entryDecoder (Decoder.new rewindingEntry) =
    .ok (rewindingMessage, Decoder.new rewindingEntry) := by
  have hentry : (MessageSet.entryDecoder (Decoder.new rewindingEntry)).toOption =
      some (rewindingMessage, Decoder.new rewindingEntry) := by
    decide +kernel
  cases hresult : MessageSet.entryDecoder (Decoder.new rewindingEntry) with
  | error error =>
      rw [hresult] at hentry
      cases hentry
  | ok pair =>
      rw [hresult] at hentry
      rw [Option.some.inj hentry]

/-- The loop over a set with that message never ends. -/
theorem messageSetLoop_rewinding (fuel : Nat) (messages : List Message) :
    MessageSet.messageSetLoop RecordBatch.noCodecs 22 fuel messages
      (Decoder.new rewindingEntry) = none := by
  induction fuel generalizing messages with
  | zero => rfl
  | succ fuel ih =>
      have hround : MessageSet.decodeEntry RecordBatch.noCodecs fuel
          (Decoder.new rewindingEntry) =
            some (.ok ([rewindingMessage], Decoder.new rewindingEntry)) := by
        rw [MessageSet.decodeEntry, entryDecoder_rewinding]
        rfl
      rw [MessageSet.messageSetLoop, hround]
      exact ih (messages ++ [rewindingMessage])

/-- The rewinding message set is never decoded. -/
theorem messageSetDecoder_rewinding {size : Option Int} {primaryDecoder sized : Decoder}
    (hsize : MessageSet.readSetSize size primaryDecoder = .ok (22, sized))
    (hslice : sized.slice 22 = Decoder.new rewindingEntry) (fuel : Nat) :
    MessageSet.messageSetDecoder RecordBatch.noCodecs fuel size primaryDecoder = none := by
  rw [MessageSet.messageSetDecoder_eq, hsize]
  dsimp only
  rw [hslice, messageSetLoop_rewinding]
  rfl

/-- Nor does the decoder of a record field with that message. -/
theorem decodeBuffer_rewinding (maxArguments fuel : Nat) :
    decodeBuffer maxArguments RecordBatch.noCodecs fuel 22 rewindingEntry = none := by
  have hmagic : Decoder.readInt8 (Decoder.new
      (slice rewindingEntry magicOffset rewindingEntry.length)) =
        .ok (0, ⟨slice rewindingEntry magicOffset rewindingEntry.length, 1⟩) :=
    @reads_readInt 1 0 (by decide) (by decide) [] (intBytes 1 0 ++ intBytes 4 (-22))
  have hset : MessageSet.messageSetDecoder RecordBatch.noCodecs fuel (some 22)
      (Decoder.new rewindingEntry) = none := by
    refine messageSetDecoder_rewinding rfl ?_ fuel
    decide
  rw [decodeBuffer, hmagic]
  dsimp only
  rw [if_neg (by decide), hset]
  rfl

/-- It keeps the decoder of message sets and, in a record field, `decodeMessages` in their loops for
ever. -/
theorem not_progresses_rewinding :
    (∀ fuel, MessageSet.messageSetDecoder RecordBatch.noCodecs fuel none
      (Decoder.new (fieldV4 rewindingEntry)) = none) ∧
    (∀ maxArguments fuel, decodeMessages sizeV4 maxArguments RecordBatch.noCodecs fuel
      (Decoder.new (fieldV4 rewindingEntry)) = none) ∧
    ¬ MessageSet.Progresses RecordBatch.noCodecs none (Decoder.new (fieldV4 rewindingEntry)) ∧
    ∀ maxArguments, ¬ FieldProgresses sizeV4 maxArguments RecordBatch.noCodecs
      (Decoder.new (fieldV4 rewindingEntry)) := by
  have hread : Reads sizeV4 (intBytes 4 22) rewindingEntry.length :=
    @reads_readInt 4 22 (by decide) (by decide)
  have hset : ∀ fuel, MessageSet.messageSetDecoder RecordBatch.noCodecs fuel none
      (Decoder.new (fieldV4 rewindingEntry)) = none := by
    refine messageSetDecoder_rewinding (hread [] rewindingEntry) ?_
    decide
  have hfield : ∀ maxArguments fuel, decodeMessages sizeV4 maxArguments RecordBatch.noCodecs fuel
      (Decoder.new (fieldV4 rewindingEntry)) = none := by
    intro maxArguments fuel
    have hdecode := @decodeMessages_field RecordBatch.noCodecs rewindingEntry sizeV4 (intBytes 4 22)
      hread maxArguments fuel [] []
    have hbuffer : decodeBuffer maxArguments RecordBatch.noCodecs fuel rewindingEntry.length
        rewindingEntry = none := decodeBuffer_rewinding maxArguments fuel
    rw [if_neg (by decide), hbuffer, List.append_nil, List.nil_append] at hdecode
    exact hdecode
  refine ⟨hset, hfield, fun hprogresses => ?_, fun maxArguments hprogresses => ?_⟩
  · obtain ⟨fuel, result, hends⟩ := hprogresses.ends
    rw [hset fuel] at hends
    cases hends
  · obtain ⟨fuel, result, hends⟩ := hprogresses.ends
    rw [hfield maxArguments fuel] at hends
    cases hends

end KafkaJs.Protocol
