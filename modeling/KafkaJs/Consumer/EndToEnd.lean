import KafkaJs.Consumer.HandledMessages
import KafkaJs.Protocol.ProduceTimestamps

/-!
# From the producer to the handler

What a producer encodes for a partition, the broker stores under the next offsets: it overwrites the
first offset of the batch, in its first eight bytes, and leaves the rest (`bytes_stored`). A
consumer reads the log over the bytes of fetch responses, as in `FetchedBytes`. `delivers_of_run`:
whatever was produced outside of a transaction and lies from the offset the consumer started at to
one that it has resolved or auto-committed reached the handler, with the key and the value that it
was produced with, and with the headers if none of them has a name that every object inherits; and
the handler gets nothing else than what is in the log.
-/

namespace KafkaJs.Consumer

open KafkaJs.Data KafkaJs.Execution KafkaJs.Protocol

variable {codecs : Codecs}

/-! ## Produced batches -/

/-- The data of a partition in a produce request, and the offset that the broker gives to the first
message. -/
structure Produced where
  compression : Option CodecType
  dateNow : Int
  data : Produce.PartitionData
  firstOffset : Int

namespace Produced

/-- The batch of the producer. -/
def batch (produced : Produced) : Protocol.RecordBatch Record :=
  produced.data.recordBatch produced.compression produced.dateNow

/-- The batch with its first offset. -/
def stamped (produced : Produced) : Protocol.RecordBatch Record :=
  { produced.batch with firstOffset := produced.firstOffset }

/-- The batch can be encoded, and the offset has room in it. -/
structure Valid (codecs : Codecs) (produced : Produced) : Prop where
  data : produced.data.Valid produced.dateNow
  hasCodec : produced.batch.HasCodec codecs
  records : produced.batch.recordsBytes.length < 2 ^ 31
  bytes : (produced.batch.bytes codecs).length < 2 ^ 31
  firstOffset : FitsInt 8 produced.firstOffset

variable {produced : Produced}

/-- The batch on the broker is in the range of its fields. -/
theorem Valid.inRange (h : produced.Valid codecs) : produced.stamped.InRange :=
  have hrange := Produce.recordBatch_inRange h.data h.records
  { firstOffset := h.firstOffset
    firstTimestamp := hrange.firstTimestamp
    maxTimestamp := hrange.maxTimestamp
    partitionLeaderEpoch := hrange.partitionLeaderEpoch
    lastOffsetDelta := hrange.lastOffsetDelta
    producerId := hrange.producerId
    producerEpoch := hrange.producerEpoch
    firstSequence := hrange.firstSequence
    records := hrange.records }

/-- The first offset takes eight bytes, whatever it is. -/
theorem bytes_stamped (produced : Produced) :
    produced.stamped.bytes codecs =
      int64Bytes produced.firstOffset ++ (produced.batch.bytes codecs).drop 8 := by
  rw [Protocol.RecordBatch.bytes, Protocol.RecordBatch.bytes, List.drop_left' (length_int64Bytes _)]
  rfl

/-- The batch on the broker has less than `2 ^ 31` bytes. -/
theorem Valid.length_stamped (h : produced.Valid codecs) :
    (produced.stamped.bytes codecs).length < 2 ^ 31 := by
  have hlength := h.bytes
  rw [bytes_stamped]
  rw [Protocol.RecordBatch.length_bytes] at hlength
  rw [List.length_append, List.length_drop, length_int64Bytes, Protocol.RecordBatch.length_bytes]
  omega

/-- The records as they are decoded. -/
def decodedRecords (produced : Produced) : List DecodedRecord :=
  (produced.data.records produced.dateNow).map (Record.decoded produced.stamped)

/-- The record of the message at an index. -/
theorem getElem?_records {index : Nat} {message : Produce.Message}
    (h : produced.data.messages[index]? = some message) :
    ∃ record : Record, (produced.data.records produced.dateNow)[index]? = some record ∧
      record.offsetDelta = index ∧ record.key = message.key ∧ record.value = message.value := by
  rw [Produce.PartitionData.records, List.getElem?_mapIdx, h]
  exact ⟨_, rfl, rfl, rfl, rfl⟩

/-- The record that is decoded at a position is that of the message there. -/
theorem getElem?_decodedRecords {index : Nat} {record : Record}
    (h : (produced.data.records produced.dateNow)[index]? = some record) :
    produced.decodedRecords[index]? = some (record.decoded produced.stamped) := by
  rw [decodedRecords, List.getElem?_map, h]
  rfl

/-- There is a record for each message. -/
theorem length_decodedRecords (produced : Produced) :
    produced.decodedRecords.length = produced.data.messages.length := by
  rw [decodedRecords, List.length_map, Produce.PartitionData.records, List.length_mapIdx]

/-- The messages get consecutive offsets. -/
theorem offset_decodedRecords {index : Nat} (h : index < produced.decodedRecords.length) :
    produced.decodedRecords[index].offset = produced.firstOffset + index := by
  have hindex := h
  rw [length_decodedRecords] at hindex
  obtain ⟨record, hrecord, hdelta, -⟩ := getElem?_records (List.getElem?_eq_getElem hindex)
  have hdecoded := getElem?_decodedRecords hrecord
  rw [List.getElem?_eq_getElem h, Option.some.injEq] at hdecoded
  rw [hdecoded, ← hdelta]
  rfl

/-- The last offset of a batch is not before its first one. -/
theorem Valid.range (h : produced.Valid codecs) :
    produced.firstOffset ≤ produced.firstOffset + produced.data.messages.length - 1 := by
  have hpos := List.length_pos_iff.mpr h.data.messages
  omega

/-- The offsets of the records are those of the batch. -/
theorem within_decodedRecords (produced : Produced) : ∀ record ∈ produced.decodedRecords,
    produced.firstOffset ≤ record.offset ∧
      record.offset ≤ produced.firstOffset + produced.data.messages.length - 1 := by
  intro record hrecord
  obtain ⟨index, hindex, rfl⟩ := List.mem_iff_getElem.mp hrecord
  rw [offset_decodedRecords hindex]
  rw [length_decodedRecords] at hindex
  omega

/-- The offsets of the records increase. -/
theorem increasing_decodedRecords (produced : Produced) :
    produced.decodedRecords.Pairwise fun a b => a.offset < b.offset := by
  rw [List.pairwise_iff_getElem]
  intro i j hi hj hlt
  rw [offset_decodedRecords hi, offset_decodedRecords hj]
  omega

/-- The batch as the broker stores it. -/
def stored (produced : Produced) (h : produced.Valid codecs) : StoredBatch codecs where
  toEncodedBatch := produced.stamped.encoded h.hasCodec h.inRange h.records h.length_stamped
  lastOffset := produced.firstOffset + produced.data.messages.length - 1
  range := h.range
  within := produced.within_decodedRecords
  increasing := produced.increasing_decodedRecords

/-- The broker stores what the producer sent, but for the first offset. -/
theorem bytes_stored (h : produced.Valid codecs) {encoder : Encoder}
    (hok : produced.batch.encode codecs = .ok encoder) :
    (produced.stored h).bytes = int64Bytes produced.firstOffset ++ encoder.buffer.drop 8 := by
  obtain ⟨hholds, -, -⟩ := Protocol.RecordBatch.encode_holds h.hasCodec
    (Produce.recordBatch_inRange h.data h.records) h.records h.bytes hok
  rw [hholds.buffer_eq]
  exact produced.bytes_stamped

/-- The batch was not sent in a transaction. -/
def Plain (produced : Produced) : Prop := produced.batch.transactional = false

end Produced

/-! ## Deliveries -/

/-- A message of a produced batch reached the handler as it was produced: a record was decoded for
it that carries its data, the handler succeeded with this record, and no other one was decoded under
its offset. A header with a name that every object has is not decoded as it was. -/
def Delivered (system : System codecs) (produced : Produced) (index : Nat)
    (message : Produce.Message) : Prop :=
  ∃ decoded : DecodedRecord,
    decoded.offset = produced.firstOffset + index ∧
    decoded.key = message.key.map Payload.bytes ∧
    decoded.value = message.value.map Payload.bytes ∧
    (∀ record ∈ (produced.data.records produced.dateNow)[index]?,
      record.NoInheritedHeader → record.Matches produced.stamped decoded) ∧
    .record produced.stamped.context decoded ∈ system.received ∧
    Message.of (.record produced.stamped.context decoded) ∈ system.consumer.handled ∧
    ∀ other ∈ system.received, (Message.of other).offset = decoded.offset →
      other = .record produced.stamped.context decoded

/-- The handler succeeded only with messages that are in the log, and everything produced that lies
before an offset of the consumer was delivered. -/
structure Delivers (system : System codecs) : Prop where
  handled : ∀ message ∈ system.consumer.handled, ∃ decoded ∈ system.received,
    decoded ∈ system.log.messages ∧ Message.of decoded = message
  delivered : ∀ (produced : Produced) (h : produced.Valid codecs), produced.Plain →
    produced.stored h ∈ system.log.batches →
    ∀ offset ∈ system.consumer.resolvedOffset.toList ++ system.consumer.autoCommitted,
      ∀ start ∈ system.consumer.start, ∀ (index : Nat) (message : Produce.Message),
        produced.data.messages[index]? = some message →
        start ≤ produced.firstOffset + index → produced.firstOffset + index < offset.value →
        Delivered system produced index message

section Runs

variable {settings : Settings} {system next : System codecs}

/-- What the consumer has comes from what was decoded, and that from the log. -/
structure Sourced (system : System codecs) : Prop where
  carries : Carries (fun message => ∃ decoded ∈ system.received, Message.of decoded = message)
    system.consumer
  received : ∀ decoded ∈ system.received, decoded ∈ system.log.messages

/-- At first nothing was handled. -/
theorem sourced_initial (committedOffset : Int) :
    Sourced (System.initial committedOffset : System codecs) := by
  refine ⟨⟨?_, ?_, ?_⟩, ?_⟩ <;> simp [System.initial, State.initial]

/-- The batch of a piece carries what was decoded of it. -/
theorem Carries.takeBatch {P : Message → Prop} {state : State} (h : Carries P state) (offset : Int)
    {data : Fetch.PartitionData} (hdata : ∀ decoded ∈ data.messages, P (Message.of decoded)) :
    Carries P (state.takeBatch offset data) := by
  unfold State.takeBatch
  split
  · exact h
  · next batch hcreate =>
      split
      · exact h
      · refine ⟨fun other hother message hmem => ?_, h.todo, h.handled⟩
        rcases List.mem_append.mp hother with hold | hnew
        · exact h.queue other hold message hmem
        · cases List.mem_singleton.mp hnew
          obtain ⟨decoded, hdecoded, rfl⟩ :=
            List.mem_map.mp (mem_rawMessages_of_create hcreate hmem)
          exact hdata decoded hdecoded

/-- Every step keeps it. -/
theorem sourced_step {event : SystemEvent codecs} (h : Sourced system)
    (hsound : system.Sound settings event) (hstep : system.step settings event = some next) :
    Sourced next := by
  have hgrows := growsTo_step hstep
  rcases step_cases hstep with ⟨_, -, _, rfl⟩ |
    ⟨index, fuel, surroundings, offset, partitions, rfl, hoffset, hpartitions, rfl⟩ |
    ⟨plain, consumer, -, hplain, hconsumer, rfl⟩
  · exact ⟨h.carries, fun decoded hmem => hgrows.mem_messages (h.received decoded hmem)⟩
  -- the bytes of a response come to no batch, or to whole batches of the log
  · have herased : Carries (fun message => ∃ decoded ∈ system.received,
        Message.of decoded = message)
        { system.consumer with fetches := system.consumer.fetches.eraseIdx index } :=
      ⟨h.carries.queue, h.carries.todo, h.carries.handled⟩
    obtain ⟨hsurroundings, hfits⟩ := hsound
    rcases fetchedPartitions_cases hsurroundings rfl (hfits offset hoffset) with hnone | hpiece
    · cases hpartitions.symm.trans hnone
      refine ⟨?_, ?_⟩
      · simpa [System.receive] using herased
      · simpa [System.receive] using h.received
    · cases hpartitions.symm.trans hpiece
      let piece := system.log.piece offset surroundings.header surroundings.size
      have hmore : Carries (fun message => ∃ decoded ∈ system.received ++
          EncodedBatch.messagesOf piece.whole, Message.of decoded = message)
          { system.consumer with fetches := system.consumer.fetches.eraseIdx index } :=
        herased.mono fun message ⟨decoded, hmem, hsame⟩ =>
          ⟨decoded, List.mem_append_left _ hmem, hsame⟩
      have hnew : (system.receive index offset [piece.received settings.version]).received =
          system.received ++ EncodedBatch.messagesOf piece.whole := by
        simp only [System.receive, List.flatMap_cons, List.flatMap_nil, List.append_nil]
        rfl
      refine ⟨?_, ?_⟩
      · rw [hnew]
        exact hmore.takeBatch offset fun decoded hmem =>
          ⟨decoded, List.mem_append_right _ hmem, rfl⟩
      · rw [hnew]
        intro decoded hmem
        rcases List.mem_append.mp hmem with hold | hpieceMem
        · exact h.received decoded hold
        · exact StoredLog.mem_messages_of_piece hpieceMem
  · exact ⟨h.carries.step hplain (fires_of_step hconsumer), h.received⟩

/-- What lies before an offset that is done was handled if it is plain. -/
theorem handled_of_done {log : PartitionLog} {state : State}
    (hbatches : ∀ batch ∈ state.batches, batch.IsFetched log) {offset : Int}
    (hdone : Done log state offset) {message : Message} (hmem : message ∈ log.records)
    (hplain : message.Plain) {start : Int} (hstart : start ∈ state.start)
    (hfrom : start ≤ message.offset) (hto : message.offset < offset) :
    message ∈ state.handled := by
  refine hdone message ⟨hmem, hplain.1, ⟨start, hstart, hfrom⟩, fun batch hbatch hwithin => ?_⟩ hto
  exact mem_messages_of_plain (hbatches batch hbatch) hwithin hplain

/-- Along every run what is handled has its source in the log. -/
theorem sourced_of_run {committedOffset : Int} {events : List (SystemEvent codecs)}
    (hrun : run (System.step settings) (System.initial committedOffset) events = some system)
    (hsound : Meets (System.step settings) (System.Sound settings)
      (System.initial committedOffset) events) : Sourced system :=
  invariant_of_meets (fun _ _ _ h hok hstep => sourced_step h hok hstep)
    (sourced_initial committedOffset) hsound hrun

/-- What was handled was decoded, and is in the log. -/
theorem Sourced.decoded (h : Sourced system) {message : Message}
    (hmem : message ∈ system.consumer.handled) : ∃ decoded ∈ system.received,
      decoded ∈ system.log.messages ∧ Message.of decoded = message := by
  obtain ⟨decoded, hdecoded, hsame⟩ := h.carries.handled message hmem
  exact ⟨decoded, hdecoded, h.received decoded hdecoded, hsame⟩

/-- What was produced outside of a transaction and lies before an offset of the consumer reached the
handler as it was produced. -/
theorem delivered_of_run {committedOffset : Int} {events : List (SystemEvent codecs)}
    (hrun : run (System.step settings) (System.initial committedOffset) events = some system)
    (hsound : Meets (System.step settings) (System.Sound settings)
      (System.initial committedOffset) events)
    {produced : Produced} (h : produced.Valid codecs) (hplain : produced.Plain)
    (hstored : produced.stored h ∈ system.log.batches) {offset : StoredOffset}
    (hoffset : offset ∈ system.consumer.resolvedOffset.toList ++ system.consumer.autoCommitted)
    {start : Int} (hstart : start ∈ system.consumer.start) {index : Nat}
    {message : Produce.Message} (hmessage : produced.data.messages[index]? = some message)
    (hfrom : start ≤ produced.firstOffset + index)
    (hto : produced.firstOffset + index < offset.value) :
    Delivered system produced index message := by
  have hsourced := sourced_of_run hrun hsound
  -- the run over bytes is one of the consumer of `AtLeastOnce`
  obtain ⟨plain, hplainRun⟩ := run_refines hrun hsound (.refl system.log)
  obtain ⟨hsafe, hbatches⟩ := safe_of_run hplainRun
  have hdone : Done system.log.toLog system.consumer offset.value := by
    rcases List.mem_append.mp hoffset with hresolved | hcommitted
    · exact hsafe.resolved offset (Option.mem_toList.mp hresolved)
    · exact hsafe.autoCommitted offset hcommitted
  obtain ⟨record, hrecord, hdelta, hkey, hvalue⟩ := Produced.getElem?_records hmessage
  have hdecoded := List.mem_of_getElem? (Produced.getElem?_decodedRecords hrecord)
  have hinLog : .record produced.stamped.context (record.decoded produced.stamped) ∈
      system.log.messages :=
    List.mem_flatMap.mpr ⟨_, hstored, List.mem_map.mpr ⟨_, hdecoded, rfl⟩⟩
  have hoffsetOf : (record.decoded produced.stamped).offset = produced.firstOffset + index := by
    rw [← hdelta]
    rfl
  have hmem : Message.of (.record produced.stamped.context (record.decoded produced.stamped)) ∈
      system.consumer.handled := by
    refine handled_of_done hbatches hdone ?_ ⟨rfl, produced.stamped.producerId, ?_⟩ hstart ?_ ?_
    · rw [StoredLog.records_toLog]
      exact List.mem_map_of_mem hinLog
    · exact congrArg (fun transactional => some (BatchContext.mk _ transactional)) hplain
    · exact hfrom.trans_eq hoffsetOf.symm
    · exact hoffsetOf.trans_lt hto
  obtain ⟨other, hother, hotherLog, hsame⟩ := hsourced.decoded hmem
  -- offsets are distinct in the log, so what was handled is the record itself
  have hself := StoredLog.eq_of_offset hotherLog hinLog (congrArg Message.offset hsame)
  refine ⟨record.decoded produced.stamped, hoffsetOf, ?_, ?_, ?_, hself ▸ hother, hmem, ?_⟩
  · exact congrArg (Option.map Payload.bytes) hkey
  · exact congrArg (Option.map Payload.bytes) hvalue
  · intro found hfound hheaders
    cases hrecord.symm.trans hfound
    exact Record.matches_decoded_iff.mpr hheaders
  · intro later hlater hlaterOffset
    exact StoredLog.eq_of_offset (hsourced.received later hlater) hinLog hlaterOffset

/-- In every run, the handler succeeds only with messages of the log; and what was produced outside
of a transaction and lies between the consumer's start and an offset that it has resolved or
auto-committed reached the handler as it was produced, its headers if no name is inherited. -/
theorem delivers_of_run (settings : Settings) (committedOffset : Int)
    (events : List (SystemEvent codecs)) (final : System codecs)
    (hrun : run (System.step settings) (System.initial committedOffset) events = some final)
    (hsound : Meets (System.step settings) (System.Sound settings)
      (System.initial committedOffset) events) :
    Delivers final where
  handled := fun _ hmem => (sourced_of_run hrun hsound).decoded hmem
  delivered := fun _ h hplain hstored _ hoffset _ hstart _ _ hmessage hfrom hto =>
    delivered_of_run hrun hsound h hplain hstored hoffset hstart hmessage hfrom hto

end Runs

/-! ## A run -/

/-- A batch of one message, the first of its partition. -/
def sampleProduced : Produced :=
  { compression := none
    dateNow := 1500000000000
    data := Produce.sampleData
    firstOffset := 0 }

/-- The sample message can be produced. -/
theorem sampleProduced_valid : sampleProduced.Valid RecordBatch.noCodecs where
  data :=
    { messages := List.cons_ne_nil _ _
      now := by decide
      timestamps := by decide
      producerId := by decide
      producerEpoch := by decide
      firstSequence := by decide }
  hasCodec := fun type htype => by cases htype
  records := by decide +kernel
  bytes := by decide +kernel
  firstOffset := by decide

def sampleSettings : Settings :=
  { version := .v12, maxArguments := 65535, topic := Text.ofString "orders", partition := 3
    autoCommit := true }

/-- A response in which another partition has no records. -/
def sampleSurroundings : Surroundings RecordBatch.noCodecs :=
  let header : Fetch.PartitionHeader :=
    { partition := 3, errorCode := 0, highWatermark := 1, lastStableOffset := 1
      lastStartOffset := some 0, abortedTransactions := none, preferredReadReplica := some (-1) }
  { throttleTime := 0, errorCode := 0, sessionId := 0, topicsBefore := []
    partitionsBefore := [{ header := { header with partition := 4 }, batches := [], size := 0 }]
    header, size := 1000, partitionsAfter := [], topicsAfter := [] }

/-- The consumer fetches the message, handles it and commits. -/
def sampleConsumption : List (SystemEvent RecordBatch.noCodecs) :=
  [.append (sampleProduced.stored sampleProduced_valid), .consumer .fetch,
    .answer 0 2 sampleSurroundings, .consumer .handleBatch, .consumer .nextMessage,
    .consumer .handlerReturns, .consumer (.heartbeat .ok), .consumer (.commit true)]

/-- The sample batch may be appended to an empty log. -/
theorem sampleProduced_later : ∀ stored ∈ (StoredLog.empty : StoredLog RecordBatch.noCodecs).batches,
    stored.lastOffset < (sampleProduced.stored sampleProduced_valid).firstOffset :=
  fun _ hmem => absurd hmem List.not_mem_nil

/-- The message is stored and its fetch is in flight. -/
def sampleFetching : System RecordBatch.noCodecs :=
  { log := StoredLog.empty.append _ sampleProduced_later
    consumer :=
      { State.initial 0 with resolvedOffset := some ⟨0, none⟩, start := some 0, fetches := [0] }
    received := [] }

/-- The response of the sample run can be encoded. -/
theorem sampleFetching_fits : (sampleSurroundings.response sampleSettings
    (sampleFetching.log.piece 0 sampleSurroundings.header sampleSurroundings.size)).Fits .v12 2 := by
  have hheader : ∀ header ∈ [sampleSurroundings.header,
      { sampleSurroundings.header with partition := 4 }], header.Fits .v12 := by
    intro header hmem
    rcases List.mem_pair.mp hmem with rfl | rfl <;>
      exact ⟨by decide, by decide, by decide, by decide, by decide, by decide,
        by simp [sampleSurroundings], by simp [sampleSurroundings], by decide, by decide⟩
  refine ⟨by decide, by decide, by decide, by decide, fun topic htopic => ?_⟩
  cases List.mem_singleton.mp htopic
  refine ⟨fun text htext => ?_, by decide, fun partition hpartition => ?_⟩
  · cases htext
    decide
  · have hlength : partition.payload.length < 2 ^ 31 := by
      have hle := List.length_take_le partition.size
        (partition.batches.map EncodedBatch.bytes).flatten
      rcases List.mem_pair.mp hpartition with rfl | rfl <;> exact lt_of_le_of_lt hle (by decide)
    rcases List.mem_pair.mp hpartition with rfl | rfl
    · exact ⟨hheader _ (by simp [sampleSurroundings]), hlength, by decide⟩
    · exact ⟨hheader _ List.mem_cons_self, hlength, by decide⟩

/-- The answer of the sample run is one that the broker may give. -/
theorem sampleFetching_sound :
    sampleFetching.Sound sampleSettings (.answer 0 2 sampleSurroundings) := by
  refine ⟨⟨?_, by simp [sampleSurroundings], rfl, by decide⟩, fun offset hoffset => ?_⟩
  · decide +kernel
  · cases hoffset
    exact sampleFetching_fits

/-- The sample run is one that the broker may take part in. -/
theorem sampleConsumption_sound : Meets (System.step sampleSettings)
    (System.Sound sampleSettings) (System.initial 0) sampleConsumption := by
  have hfetch : System.step sampleSettings
      { log := StoredLog.empty.append _ sampleProduced_later
        consumer := State.initial 0
        received := [] } (.consumer .fetch) = some sampleFetching := rfl
  refine (meets_cons (step_append sampleProduced_later)).mpr ⟨trivial,
    (meets_cons hfetch).mpr ⟨trivial, sampleFetching_sound, ?_⟩⟩
  split
  · refine meets_of_forall (fun event hevent state => ?_) _
    simp only [List.mem_cons, List.not_mem_nil, or_false] at hevent
    rcases hevent with rfl | rfl | rfl | rfl | rfl <;> trivial
  · trivial

/-- The message is delivered. -/
theorem delivers_sampleConsumption : ∃ final,
    run (System.step sampleSettings) (System.initial 0) sampleConsumption = some final ∧
      Delivers final ∧ final.consumer.autoCommitted = [⟨1, none⟩] ∧
      ∀ message ∈ sampleProduced.data.messages, Delivered final sampleProduced 0 message := by
  obtain ⟨final, hrun⟩ : ∃ final,
      run (System.step sampleSettings) (System.initial 0) sampleConsumption = some final :=
    Option.isSome_iff_exists.mp (by decide +kernel)
  have hfinal : final.consumer.autoCommitted = [⟨1, none⟩] ∧ final.consumer.start = some 0 := by
    have hmap : (run (System.step sampleSettings) (System.initial 0) sampleConsumption).all
        (fun final => final.consumer.autoCommitted = [⟨1, none⟩] ∧
          final.consumer.start = some 0) = true := by
      decide +kernel
    rw [hrun] at hmap
    simpa using hmap
  obtain ⟨hcommitted, hstart⟩ := hfinal
  have hdelivers := delivers_of_run sampleSettings 0 sampleConsumption final hrun
    sampleConsumption_sound
  have hstored : sampleProduced.stored sampleProduced_valid ∈ final.log.batches := by
    obtain ⟨first, hfirst, hrest⟩ := run_cons_eq_some.mp hrun
    cases (step_append sampleProduced_later).symm.trans hfirst
    exact (growsTo_run hrest).mem_batches (List.mem_append_right [] List.mem_cons_self)
  refine ⟨final, hrun, hdelivers, hcommitted, fun message hmessage => ?_⟩
  cases List.mem_singleton.mp hmessage
  exact hdelivers.delivered sampleProduced sampleProduced_valid rfl hstored ⟨1, none⟩
    (by simp [hcommitted]) 0 hstart 0 _ rfl (by decide) (by decide)

end KafkaJs.Consumer
