import KafkaJs.Protocol.MessageSet
import KafkaJs.Protocol.PrimitiveReaders
import KafkaJs.Protocol.RecordBatchRoundTrip
import Mathlib.Algebra.Group.Nat.Defs

/-!
# The record field of a fetch response

`decodeMessages` of the fetch responses from version 4 on. Version 12 differs in how the size of the
field is read. Brokers cut the field at the limit of the request, wherever that falls.

`EncodedBatch` is a record batch as it stands in the field: its bytes, with the fact that the
decoder accepts them. `decodeMessages_payload` says what becomes of a prefix of a sequence of such
batches: the records of the whole batches are returned, each with the context of its batch, and the
decoder is left behind the field. There are two ways to fail: reading the magic byte throws if the
prefix has between 1 and 16 bytes, and pushing the records of a batch throws if there are more of
them than a call takes arguments.
-/

namespace KafkaJs.Protocol

open KafkaJs.Data

/-! ## Decoding -/

/-- A message of a fetch response, in one of the two formats. Records have a `batchContext`. -/
inductive PartitionMessage where
  | record (batchContext : BatchContext) (record : DecodedRecord)
  | message (message : Message)

/-- The records of a batch, each with the context of the batch. -/
def recordsIn (batchContext : BatchContext) (records : List DecodedRecord) :
    List PartitionMessage :=
  records.map (.record batchContext)

/-- `MAGIC_OFFSET`. -/
def magicOffset : Int := 16

/-- `RECORD_BATCH_OVERHEAD`. -/
def recordBatchOverhead : Int := 49

/-- What a call throws that has more arguments than the engine takes. -/
def callStackExceeded : KafkaError :=
  { name := .rangeError, message := "Maximum call stack size exceeded", retriable := none }

/-- `records.push(...recordBatch.records)`: the records are the arguments of one call. -/
def pushRecords (maxArguments : Nat) (records batch : List PartitionMessage) :
    Except KafkaError (List PartitionMessage) :=
  if batch.length ≤ maxArguments then .ok (records ++ batch) else .error callStackExceeded

/-- What is tried in a round of the loop over the record batches. -/
def decodeBatch (maxArguments : Nat) (codecs : Codecs) (records : List PartitionMessage)
    (decoder : Decoder) : Except KafkaError (List PartitionMessage × Decoder) :=
  match decodeRecordBatch codecs decoder with
  | .error error => .error error
  | .ok ((batchContext, batch), decoder) =>
      (pushRecords maxArguments records (recordsIn batchContext batch)).map fun records =>
        (records, decoder)

/-- The loop over the record batches: an incomplete one ends it. -/
def recordBatchesLoop (maxArguments : Nat) (codecs : Codecs) :
    Nat → List PartitionMessage → Decoder → Bounded (List PartitionMessage)
  | 0, _, _ => none
  | fuel + 1, records, decoder =>
      if decoder.canReadBytes recordBatchOverhead then
        match decodeBatch maxArguments codecs records decoder with
        | .ok (records, decoder) => recordBatchesLoop maxArguments codecs fuel records decoder
        | .error error =>
            if error.name = .kafkaJSPartialMessageError then some (.ok records)
            else some (.error error)
      else some (.ok records)

/-- The messages in the buffer of a record field, by its magic byte. -/
def decodeBuffer (maxArguments : Nat) (codecs : Codecs) (fuel : Nat) (messagesSize : Int)
    (messagesBuffer : Bytes) : Bounded (List PartitionMessage) :=
  match Decoder.readInt8 (Decoder.new (slice messagesBuffer magicOffset messagesBuffer.length)) with
  | .error error => some (.error error)
  | .ok (magicByte, _) =>
      if magicByte = 2 then
        recordBatchesLoop maxArguments codecs fuel [] (Decoder.new messagesBuffer)
      else
        (MessageSet.messageSetDecoder codecs fuel (some messagesSize)
          (Decoder.new messagesBuffer)).map fun messages =>
            messages.map fun (messages, _) => messages.map .message

/-- `decodeMessages`, given the reader of the size. -/
def decodeMessages (readSize : Reader Int) (maxArguments : Nat) (codecs : Codecs) (fuel : Nat)
    (decoder : Decoder) : Bounded (List PartitionMessage × Decoder) :=
  match readSize decoder with
  | .error error => some (.error error)
  | .ok (messagesSize, decoder) =>
      if messagesSize ≤ 0 ∨ ¬ decoder.canReadBytes messagesSize then some (.ok ([], decoder))
      else
        match Decoder.readBytesOf messagesSize decoder with
        | .error error => some (.error error)
        | .ok (none, _) =>
            some (.error { name := .typeError
                           message := "Cannot read properties of null (reading 'slice')"
                           retriable := none })
        | .ok (some messagesBuffer, decoder) =>
            (decodeBuffer maxArguments codecs fuel messagesSize messagesBuffer).map fun messages =>
              messages.map fun messages => (messages, decoder)

/-- The size of the record field in version 4. -/
def sizeV4 : Reader Int := Decoder.readInt32

/-- The size of the record field in version 12, one less than the compact length. -/
def sizeV12 : Reader Int := (fun length : Nat => (length : Int) - 1) <$> Decoder.readUVarInt

/-! ## Encoded batches -/

/-- A record batch as it stands in a record field. `content` is what its length covers; it has all
fixed fields, carries the magic byte 2 and is accepted by the decoder. -/
structure EncodedBatch (codecs : Codecs) where
  firstOffset : Int
  content : Bytes
  context : BatchContext
  records : List DecodedRecord
  fits : FitsInt 8 firstOffset
  overhead : 49 ≤ content.length
  length : content.length < 2 ^ 31
  magic : content[4]? = some 2
  decodes : runOn (readBatch codecs firstOffset) (Decoder.new content) =
    Pure.pure (context, records)

namespace EncodedBatch

variable {codecs : Codecs}

/-- The bytes of the batch. -/
def bytes (batch : EncodedBatch codecs) : Bytes :=
  int64Bytes batch.firstOffset ++ (intBytes 4 batch.content.length ++ batch.content)

/-- A batch takes its content and the twelve bytes of base offset and length. -/
theorem length_bytes (batch : EncodedBatch codecs) :
    batch.bytes.length = 12 + batch.content.length := by
  simp only [bytes, List.length_append, length_int64Bytes, length_intBytes]
  omega

/-- The batch is decoded wherever it stands. -/
theorem reads (batch : EncodedBatch codecs) :
    Reads (decodeRecordBatch codecs) batch.bytes (batch.context, batch.records) :=
  reads_framed batch.fits batch.length batch.decodes

/-- The magic byte stands at `magicOffset`. -/
theorem getElem?_magic (batch : EncodedBatch codecs) : batch.bytes[16]? = some 2 := by
  rw [bytes, List.getElem?_append_right (by simp), length_int64Bytes,
    List.getElem?_append_right (by simp), length_intBytes]
  exact batch.magic

/-- The batches that lie within the first `count` bytes of a sequence of batches. -/
def contained : Nat → List (EncodedBatch codecs) → List (EncodedBatch codecs)
  | _, [] => []
  | count, batch :: batches =>
      if batch.bytes.length ≤ count then batch :: contained (count - batch.bytes.length) batches
      else []

/-- The messages that the records of batches become, in order. -/
def messagesOf (batches : List (EncodedBatch codecs)) : List PartitionMessage :=
  batches.flatMap fun batch => recordsIn batch.context batch.records

/-- Each of the batches can be pushed: a call takes its records as arguments. -/
def Pushable (maxArguments : Nat) (batches : List (EncodedBatch codecs)) : Prop :=
  ∀ batch ∈ batches, batch.records.length ≤ maxArguments

/-- `Pushable` is decidable by going through the batches. -/
instance (maxArguments : Nat) (batches : List (EncodedBatch codecs)) :
    Decidable (Pushable maxArguments batches) :=
  inferInstanceAs (Decidable (∀ batch ∈ batches, _))

/-- No batch is more than a call takes. -/
@[simp] theorem pushable_nil {maxArguments : Nat} :
    Pushable maxArguments ([] : List (EncodedBatch codecs)) :=
  fun _ hmem => absurd hmem List.not_mem_nil

/-- Batches can be pushed exactly when the first and the others can. -/
@[simp] theorem pushable_cons {maxArguments : Nat} {batch : EncodedBatch codecs}
    {batches : List (EncodedBatch codecs)} :
    Pushable maxArguments (batch :: batches) ↔
      batch.records.length ≤ maxArguments ∧ Pushable maxArguments batches :=
  List.forall_mem_cons

/-- A prefix of batches that `decodeMessages` returns from: it is empty, or it has a magic byte and
its whole batches can be pushed. -/
def Readable (maxArguments : Nat) (payload : Bytes) (batches : List (EncodedBatch codecs)) : Prop :=
  payload = [] ∨
    16 < payload.length ∧ Pushable maxArguments (contained payload.length batches)

/-- `Readable` is decidable by the length of the payload and the batches. -/
instance (maxArguments : Nat) (payload : Bytes) (batches : List (EncodedBatch codecs)) :
    Decidable (Readable maxArguments payload batches) :=
  inferInstanceAs (Decidable (_ ∨ _ ∧ _))

end EncodedBatch

/-- What `decodeMessages` throws at a prefix that it does not return from. -/
def payloadError (payload : Bytes) : KafkaError :=
  if 16 < payload.length then callStackExceeded else outOfRange

/-- The fields of a batch behind its length take at least 49 bytes. -/
theorem RecordBatch.overhead_innerBytes (codecs : Codecs) (batch : RecordBatch Record) :
    49 ≤ (batch.innerBytes codecs).length := by
  simp only [innerBytes, bodyBytes, List.length_append, length_intBytes, length_int64Bytes,
    length_bigEndian]
  omega

/-- A batch whose bytes fit an int32 length has a content that does. -/
theorem RecordBatch.length_innerBytes_lt {codecs : Codecs} {batch : RecordBatch Record}
    (hlength : (batch.bytes codecs).length < 2 ^ 31) :
    (batch.innerBytes codecs).length < 2 ^ 31 := by
  have htotal := @RecordBatch.length_bytes codecs batch
  omega

/-- The byte that tells a batch from a message set is the fifth of the content. -/
theorem RecordBatch.magic_innerBytes (codecs : Codecs) (batch : RecordBatch Record) :
    (batch.innerBytes codecs)[4]? = some 2 := by
  rw [innerBytes, List.getElem?_append_right (by simp), length_intBytes]
  rfl

/-- A batch that the encoder writes, as an encoded batch. -/
def RecordBatch.encoded {codecs : Codecs} (batch : RecordBatch Record)
    (hcodec : batch.HasCodec codecs) (hrange : batch.InRange)
    (hrecords : batch.recordsBytes.length < 2 ^ 31)
    (hlength : (batch.bytes codecs).length < 2 ^ 31) : EncodedBatch codecs where
  firstOffset := batch.firstOffset
  content := batch.innerBytes codecs
  context := batch.context
  records := batch.records.map (Record.decoded batch)
  fits := hrange.firstOffset
  overhead := batch.overhead_innerBytes codecs
  length := length_innerBytes_lt hlength
  magic := batch.magic_innerBytes codecs
  decodes := (yields_readBatch hcodec hrange hrecords).runOn_eq

/-! ## Prefixes -/

section Prefixes

variable {codecs : Codecs} {batches : List (EncodedBatch codecs)} {payload : Bytes}

/-- Of a batch that is not there as a whole, enough is there to see that it is not. -/
theorem decodeRecordBatch_partial (batch : EncodedBatch codecs) (before : Bytes) {count : Nat}
    (hlower : 49 ≤ count) (hupper : count < batch.bytes.length) :
    ∃ message, decodeRecordBatch codecs ⟨before ++ batch.bytes.take count, before.length⟩ =
      .error { name := .kafkaJSPartialMessageError, message, retriable := some false } := by
  have hlength := batch.length_bytes
  have hshort := batch.length
  obtain ⟨hfits₁, hfits₂⟩ := batch.fits
  have htake : batch.bytes.take count = int64Bytes batch.firstOffset ++
      (intBytes 4 batch.content.length ++ batch.content.take (count - 12)) := by
    rw [EncodedBatch.bytes, List.take_append, List.take_append,
      List.take_of_length_le (by simp; omega), List.take_of_length_le (by simp; omega),
      length_int64Bytes, length_intBytes, Nat.sub_sub]
  have hoffset := @reads_readInt64 batch.firstOffset (by omega) (by omega) before
    (intBytes 4 batch.content.length ++ batch.content.take (count - 12))
  have hsize := @reads_readInt 4 batch.content.length (by omega) (by omega)
    (before ++ int64Bytes batch.firstOffset) (batch.content.take (count - 12))
  have hslice := slice_take (before ++ int64Bytes batch.firstOffset ++
    intBytes 4 batch.content.length) (batch.content.take (count - 12)) batch.content.length
  simp only [List.append_assoc, List.length_append, Nat.cast_add] at hsize hslice
  rw [← Int.add_assoc] at hslice
  -- what is left of the content is shorter than the length says
  have hrest : ((batch.content.take (count - 12)).take batch.content.length).length <
      batch.content.length := by
    simp only [List.length_take]
    omega
  refine ⟨"Tried to decode a partial record batch: remainingBytes(" ++
    toString ((batch.content.take (count - 12)).take batch.content.length).length ++
    ") < recordBatchLength(" ++ toString (batch.content.length : Int) ++ ")", ?_⟩
  rw [htake]
  show (Decoder.readInt64 _ >>= fun pair => _) = _
  rw [hoffset, ok_bind]
  show (Decoder.readInt32 _ >>= fun pair => _) = _
  rw [Decoder.readInt32, hsize, ok_bind]
  show (if ((Decoder.slice _ _).buffer.length : Int) < _ then _ else _ : Reader _) _ = _
  simp only [Decoder.slice, hslice]
  rw [if_pos (by exact_mod_cast hrest)]
  rfl

/-- A decoder at the end of `before` can read the bytes that follow, and no more. -/
theorem canReadBytes_append (before rest : Bytes) (length : Int) :
    Decoder.canReadBytes length ⟨before ++ rest, before.length⟩ =
      decide (length ≤ rest.length) := by
  show decide (((before ++ rest).length : Int) - before.length ≥ length) = _
  rw [List.length_append]
  exact decide_eq_decide.mpr ⟨fun h => by omega, fun h => by omega⟩

section Batches

variable {maxArguments : Nat} {batch : EncodedBatch codecs}

/-- A batch that is there as a whole is decoded wherever it stands, and its records are pushed if a
call takes as many. -/
theorem decodeBatch_whole (messages : List PartitionMessage) (before rest : Bytes) :
    decodeBatch maxArguments codecs messages
        ⟨before ++ (batch.bytes ++ rest), before.length⟩ =
      if batch.records.length ≤ maxArguments then
        .ok (messages ++ recordsIn batch.context batch.records,
          ⟨before ++ (batch.bytes ++ rest), (before.length : Int) + batch.bytes.length⟩)
      else .error callStackExceeded := by
  have hcount : (recordsIn batch.context batch.records).length = batch.records.length :=
    List.length_map _
  rw [decodeBatch, batch.reads before rest]
  dsimp only
  rw [pushRecords, hcount]
  split <;> rfl

/-- A batch that is cut behind its overhead is a partial one. -/
theorem decodeBatch_cut (messages : List PartitionMessage) (before : Bytes) {count : Nat}
    (hlower : 49 ≤ count) (hupper : count < batch.bytes.length) :
    ∃ error, error.name = .kafkaJSPartialMessageError ∧
      decodeBatch maxArguments codecs messages
        ⟨before ++ batch.bytes.take count, before.length⟩ = .error error := by
  obtain ⟨message, herror⟩ := decodeRecordBatch_partial batch before hlower hupper
  exact ⟨_, rfl, by rw [decodeBatch, herror]⟩

end Batches

/-- The loop over a prefix of a sequence of batches collects the records of the batches in it. It
ends at the first batch that is cut: either its overhead is not there, or the decoder finds that
the rest of it is not. It throws at the first batch that cannot be pushed. -/
theorem recordBatchesLoop_prefix {maxArguments fuel : Nat} (hfuel : batches.length < fuel)
    (before : Bytes) (messages : List PartitionMessage)
    (hcut : payload <+: (batches.map EncodedBatch.bytes).flatten) :
    recordBatchesLoop maxArguments codecs fuel messages ⟨before ++ payload, before.length⟩ =
      some (if EncodedBatch.Pushable maxArguments
          (EncodedBatch.contained payload.length batches) then
        .ok (messages ++ EncodedBatch.messagesOf (EncodedBatch.contained payload.length batches))
      else .error callStackExceeded) := by
  induction batches generalizing fuel before messages payload with
  | nil =>
      obtain ⟨fuel, rfl⟩ := Nat.exists_eq_add_of_lt hfuel
      rw [List.map_nil, List.flatten_nil, List.prefix_nil] at hcut
      rw [recordBatchesLoop, canReadBytes_append, hcut, EncodedBatch.contained]
      simp [recordBatchOverhead, EncodedBatch.messagesOf]
  | cons batch batches ih =>
      obtain ⟨fuel, rfl⟩ := Nat.exists_eq_succ_of_ne_zero (Nat.ne_zero_of_lt hfuel)
      rw [List.length_cons] at hfuel
      rw [List.map_cons, List.flatten_cons] at hcut
      have hlength := batch.length_bytes
      have hlong := batch.overhead
      rw [recordBatchesLoop, canReadBytes_append, recordBatchOverhead, EncodedBatch.contained]
      by_cases hwhole : batch.bytes.length ≤ payload.length
      · -- the batch is there as a whole
        obtain ⟨rest, rfl⟩ := List.prefix_of_prefix_length_le (List.prefix_append _ _) hcut hwhole
        rw [List.prefix_append_right_inj] at hcut
        have hroom : (49 : Int) ≤ (batch.bytes ++ rest).length := by
          rw [List.length_append]
          omega
        rw [if_pos hwhole, if_pos (decide_eq_true hroom), decodeBatch_whole, List.length_append,
          Nat.add_sub_cancel_left]
        by_cases hcount : batch.records.length ≤ maxArguments
        · have hnext := @ih rest fuel (by omega) (before ++ batch.bytes)
            (messages ++ recordsIn batch.context batch.records) hcut
          simp only [List.append_assoc, List.length_append, Nat.cast_add] at hnext
          rw [if_pos hcount]
          simp only [hnext, EncodedBatch.pushable_cons, hcount, true_and, EncodedBatch.messagesOf,
            List.flatMap_cons]
        · rw [if_neg hcount, if_neg fun hpushable =>
            hcount (EncodedBatch.pushable_cons.mp hpushable).1]
          rfl
      · -- the batch is cut
        have hcut : payload = batch.bytes.take payload.length := by
          have htake := List.prefix_iff_eq_take.mp hcut
          rwa [List.take_append_of_le_length (by omega)] at htake
        rw [if_neg hwhole, if_pos EncodedBatch.pushable_nil, EncodedBatch.messagesOf, List.flatMap_nil,
          List.append_nil]
        by_cases hroom : (49 : Int) ≤ payload.length
        · obtain ⟨error, hpartial, herror⟩ := @decodeBatch_cut codecs maxArguments batch messages
            before _ (by omega : 49 ≤ payload.length) (by omega)
          rw [← hcut] at herror
          rw [if_pos (decide_eq_true hroom), herror]
          exact if_pos hpartial
        · rw [if_neg (by simpa using hroom)]

/-- The record field of version 4: the payload behind its length. -/
def fieldV4 (payload : Bytes) : Bytes := intBytes 4 payload.length ++ payload

/-- The record field of version 12: the payload behind its compact length. -/
def fieldV12 (payload : Bytes) : Bytes :=
  uVarIntBytes (BitVec.ofInt 32 (payload.length + 1)) ++ payload

/-- The field is decoded to `messages`, wherever it stands and whatever follows, and the decoder is
left behind the field. -/
def DecodesTo (readSize : Reader Int) (maxArguments : Nat) (codecs : Codecs) (field : Bytes)
    (messages : List PartitionMessage) : Prop :=
  ∀ before after : Bytes, ∃ fuel, ∀ more ≥ fuel,
    decodeMessages readSize maxArguments codecs more
        ⟨before ++ (field ++ after), before.length⟩ =
      some (.ok (messages,
        ⟨before ++ (field ++ after), (before.length : Int) + field.length⟩))

/-- The decoder behind the size of a field whose payload is there. -/
theorem decodeMessages_field {readSize : Reader Int} {size : Bytes}
    (hsize : Reads readSize size payload.length) (maxArguments fuel : Nat) (before after : Bytes) :
    decodeMessages readSize maxArguments codecs fuel
        ⟨before ++ (size ++ payload ++ after), before.length⟩ =
      if payload = [] then
        some (.ok ([], ⟨before ++ (size ++ payload ++ after),
          (before.length : Int) + (size ++ payload).length⟩))
      else
        (decodeBuffer maxArguments codecs fuel payload.length payload).map fun messages =>
          messages.map fun messages => (messages, ⟨before ++ (size ++ payload ++ after),
            (before.length : Int) + (size ++ payload).length⟩) := by
  have hread := hsize before (payload ++ after)
  have hcan := canReadBytes_append (before ++ size) (payload ++ after) payload.length
  have hbytes : Reads (Decoder.readBytesOf payload.length) payload (some payload) := by
    rw [Decoder.readBytesOf, if_neg (by omega)]
    exact (reads_take payload).map
  have hpayload := hbytes (before ++ size) after
  simp only [List.append_assoc, List.length_append, Nat.cast_add] at hcan hpayload
  rw [decodeMessages, List.append_assoc, hread]
  dsimp only
  rw [hcan]
  by_cases hempty : payload = []
  · subst hempty
    simp
  · have hpos : 0 < payload.length := List.length_pos_iff.mpr hempty
    rw [if_neg hempty, if_neg (by simp; omega), hpayload]
    simp only [List.length_append, Nat.cast_add, Int.add_assoc]

/-- The byte at the magic offset of a payload is that of its first batch. -/
theorem getElem?_magic_payload (hcut : payload <+: (batches.map EncodedBatch.bytes).flatten)
    (h : 16 < payload.length) : payload[16]? = some 2 := by
  obtain ⟨rest, hrest⟩ := hcut
  cases batches with
  | nil =>
      have hlength := congrArg List.length hrest
      rw [List.map_nil, List.flatten_nil, List.length_append, List.length_nil] at hlength
      omega
  | cons batch batches =>
      have hlength := batch.length_bytes
      have hlong := batch.overhead
      rw [← List.getElem?_append_left h, hrest, List.map_cons, List.flatten_cons,
        List.getElem?_append_left (by omega), batch.getElem?_magic]

/-- The magic byte of such a payload is that of record batches. -/
theorem readInt8_magic (hcut : payload <+: (batches.map EncodedBatch.bytes).flatten)
    (h : 16 < payload.length) :
    Decoder.readInt8 (Decoder.new (slice payload magicOffset payload.length)) =
      .ok (2, ⟨2 :: payload.drop 17, 1⟩) := by
  have hdrop : payload.drop 16 = 2 :: payload.drop 17 := by
    rw [List.drop_eq_getElem?_toList_append, getElem?_magic_payload hcut h]
    rfl
  have hslice : slice payload magicOffset payload.length = 2 :: payload.drop 17 := by
    rw [slice, sliceIndex, sliceIndex, magicOffset, if_neg (by omega), if_neg (by omega),
      show min (16 : Int).toNat payload.length = 16 by omega, ← hdrop]
    exact List.take_of_length_le (by rw [List.length_drop]; omega)
  rw [hslice]
  exact @reads_readInt 1 2 (by decide) (by decide) [] (payload.drop 17)

/-- What a payload that is not empty comes to: its whole batches, or one of the two errors. -/
theorem decodeBuffer_payload {maxArguments fuel : Nat} (hfuel : batches.length < fuel)
    (hcut : payload <+: (batches.map EncodedBatch.bytes).flatten) (hpayload : payload ≠ []) :
    decodeBuffer maxArguments codecs fuel payload.length payload =
      some (if EncodedBatch.Readable maxArguments payload batches then
        .ok (EncodedBatch.messagesOf (EncodedBatch.contained payload.length batches))
      else .error (payloadError payload)) := by
  rw [payloadError]
  by_cases h : 16 < payload.length
  · have hreadable : EncodedBatch.Readable maxArguments payload batches ↔
        EncodedBatch.Pushable maxArguments (EncodedBatch.contained payload.length batches) :=
      ⟨fun hreadable => (hreadable.resolve_left hpayload).2, fun hpushable => .inr ⟨h, hpushable⟩⟩
    rw [decodeBuffer, readInt8_magic hcut h, if_pos h]
    simp only [hreadable]
    exact recordBatchesLoop_prefix hfuel [] [] hcut
  · have hempty : slice payload magicOffset payload.length = [] := by
      rw [slice, List.take_eq_nil_iff]
      left
      rw [sliceIndex, sliceIndex, magicOffset, if_neg (by omega), if_neg (by omega)]
      omega
    rw [decodeBuffer, hempty, if_neg h, if_neg fun hreadable => h (hreadable.resolve_left hpayload).1]
    rfl

/-- No batch lies within no bytes. -/
theorem contained_zero (batches : List (EncodedBatch codecs)) :
    EncodedBatch.contained 0 batches = [] := by
  cases batches with
  | nil => rfl
  | cons batch =>
      have hlength := batch.length_bytes
      rw [EncodedBatch.contained, if_neg (by omega)]

/-- The reader of a field whose payload is a prefix of a sequence of batches returns exactly if the
payload is readable. -/
theorem decodeMessages_payload {readSize : Reader Int} {size : Bytes} {maxArguments fuel : Nat}
    (hsize : Reads readSize size payload.length) (hfuel : batches.length < fuel)
    (hcut : payload <+: (batches.map EncodedBatch.bytes).flatten) (before after : Bytes) :
    decodeMessages readSize maxArguments codecs fuel
        ⟨before ++ (size ++ payload ++ after), before.length⟩ =
      some (if EncodedBatch.Readable maxArguments payload batches then
        .ok (EncodedBatch.messagesOf (EncodedBatch.contained payload.length batches),
          ⟨before ++ (size ++ payload ++ after),
            (before.length : Int) + (size ++ payload).length⟩)
      else .error (payloadError payload)) := by
  rw [decodeMessages_field hsize]
  by_cases hempty : payload = []
  · subst hempty
    have hreadable : EncodedBatch.Readable maxArguments [] batches := Or.inl rfl
    rw [if_pos rfl, if_pos hreadable, List.length_nil, contained_zero]
    rfl
  · rw [if_neg hempty, decodeBuffer_payload hfuel hcut hempty]
    by_cases hreadable : EncodedBatch.Readable maxArguments payload batches
    · rw [if_pos hreadable, if_pos hreadable]
      rfl
    · rw [if_neg hreadable, if_neg hreadable]
      rfl

/-- A field whose payload is a prefix of a sequence of batches. -/
theorem decodesTo_iff {readSize : Reader Int} {size : Bytes} (maxArguments : Nat)
    (hsize : Reads readSize size payload.length)
    (hcut : payload <+: (batches.map EncodedBatch.bytes).flatten) :
    DecodesTo readSize maxArguments codecs (size ++ payload)
        (EncodedBatch.messagesOf (EncodedBatch.contained payload.length batches)) ↔
      EncodedBatch.Readable maxArguments payload batches := by
  constructor
  · intro h
    by_contra hunreadable
    obtain ⟨fuel, hfuel⟩ := h [] []
    have hresult := hfuel (max fuel (batches.length + 1)) (le_max_left _ _)
    rw [decodeMessages_payload hsize (by omega) hcut, if_neg hunreadable] at hresult
    cases hresult
  · intro h before after
    refine ⟨batches.length + 1, fun more hmore => ?_⟩
    rw [decodeMessages_payload hsize (by omega) hcut, if_pos h]

/-- The compact length of a payload is read as its size. -/
theorem reads_sizeV12 (h : payload.length + 1 < 2 ^ 32) :
    Reads sizeV12 (uVarIntBytes (BitVec.ofInt 32 (payload.length + 1))) payload.length := by
  have hreads :=
    @Reads.map _ _ _ _ _ (fun length : Nat => (length : Int) - 1) (reads_compactLength h)
  rw [show ((payload.length + 1 : Nat) : Int) - 1 = payload.length by omega] at hreads
  exact hreads

/-- A prefix of a sequence of encoded batches, in the record field of version 4 or of version 12:
the records of the batches wholly contained in it are decoded, each with the context of its batch,
and the decoder is left behind the field, exactly if the prefix is empty, or reaches beyond the
magic byte and has no whole batch with more records than a call takes arguments. -/
theorem decodeMessages_truncated_iff (maxArguments : Nat)
    (hcut : payload <+: (batches.map EncodedBatch.bytes).flatten) :
    (payload.length < 2 ^ 31 →
      (DecodesTo sizeV4 maxArguments codecs (fieldV4 payload)
          (EncodedBatch.messagesOf (EncodedBatch.contained payload.length batches)) ↔
        EncodedBatch.Readable maxArguments payload batches)) ∧
    (payload.length + 1 < 2 ^ 32 →
      (DecodesTo sizeV12 maxArguments codecs (fieldV12 payload)
          (EncodedBatch.messagesOf (EncodedBatch.contained payload.length batches)) ↔
        EncodedBatch.Readable maxArguments payload batches)) := by
  constructor
  · intro hlength
    exact decodesTo_iff maxArguments (@reads_readInt 4 payload.length (by omega) (by omega)) hcut
  · intro hlength
    exact decodesTo_iff maxArguments (reads_sizeV12 hlength) hcut

end Prefixes

/-- Two batches of one record each. -/
def sampleBatches : List (EncodedBatch RecordBatch.noCodecs) :=
  let batch := (RecordBatch.sample (.single none)).encoded (RecordBatch.sample_hasCodec _)
    (RecordBatch.sample_inRange _) (by decide) (by decide)
  [batch, batch]

/-- The bytes of the two batches. -/
def sampleBytes : Bytes := (sampleBatches.map EncodedBatch.bytes).flatten

/-- A prefix that cuts the second of two batches. -/
theorem decodeMessages_truncated_second :
    DecodesTo sizeV4 65535 RecordBatch.noCodecs (fieldV4 (sampleBytes.take 150))
      (EncodedBatch.messagesOf
        (EncodedBatch.contained (sampleBytes.take 150).length sampleBatches)) ∧
    DecodesTo sizeV12 65535 RecordBatch.noCodecs (fieldV12 (sampleBytes.take 150))
      (EncodedBatch.messagesOf
        (EncodedBatch.contained (sampleBytes.take 150).length sampleBatches)) := by
  have hcut : sampleBytes.take 150 <+: (sampleBatches.map EncodedBatch.bytes).flatten :=
    List.take_prefix _ _
  have hlength : (sampleBytes.take 150).length = 150 := by decide +kernel
  have hreadable : EncodedBatch.Readable 65535 (sampleBytes.take 150) sampleBatches := by
    decide +kernel
  obtain ⟨hv4, hv12⟩ := decodeMessages_truncated_iff 65535 hcut
  exact ⟨(hv4 (by omega)).mpr hreadable, (hv12 (by omega)).mpr hreadable⟩

/-- A prefix that ends in front of the magic byte makes both versions throw. -/
theorem decodeMessages_throws_short :
    sampleBytes.take 10 <+: (sampleBatches.map EncodedBatch.bytes).flatten ∧
    ∀ maxArguments,
      ¬ DecodesTo sizeV4 maxArguments RecordBatch.noCodecs (fieldV4 (sampleBytes.take 10))
        (EncodedBatch.messagesOf
          (EncodedBatch.contained (sampleBytes.take 10).length sampleBatches)) ∧
      ¬ DecodesTo sizeV12 maxArguments RecordBatch.noCodecs (fieldV12 (sampleBytes.take 10))
        (EncodedBatch.messagesOf
          (EncodedBatch.contained (sampleBytes.take 10).length sampleBatches)) := by
  have hcut : sampleBytes.take 10 <+: (sampleBatches.map EncodedBatch.bytes).flatten :=
    List.take_prefix _ _
  have hlength : (sampleBytes.take 10).length = 10 := by decide
  refine ⟨hcut, fun maxArguments => ?_⟩
  have hshort : ¬ EncodedBatch.Readable maxArguments (sampleBytes.take 10) sampleBatches := by
    rintro (hempty | ⟨hlong, -⟩)
    · rw [hempty] at hlength
      cases hlength
    · omega
  exact ⟨fun h => hshort
      ((decodesTo_iff maxArguments (@reads_readInt 4 _ (by omega) (by omega)) hcut).mp h),
    fun h => hshort ((decodesTo_iff maxArguments (reads_sizeV12 (by omega)) hcut).mp h)⟩

end KafkaJs.Protocol
