import KafkaJs.Protocol.ProducePartition

/-!
# Timestamps of produced records

What the decoder of record batches makes of the timestamps that the partition encoders write. The
first and the last of the timestamps sorted as texts become those of the batch, and each record
carries the difference from the first. The first timestamp cancels out (`records_timestamps`), so
that it does not matter which one it is. But the last one as a text need not be the latest, the time
of messages without timestamp is not among them, and a timestamp zero given as a number counts as
none. `survive_iff` says when nothing of this shows.
-/

namespace KafkaJs.Protocol.Produce

open KafkaJs.Data

/-- The versions that have a partition encoder of their own. -/
inductive Version where
  | v3
  | v9
  deriving DecidableEq

/-- `partitionsEncoder` of a version. -/
def Version.partitionsEncoder : Version → Codecs → Option CodecType → Int → PartitionData →
    Except KafkaError Encoder
  | .v3 => V3.partitionsEncoder
  | .v9 => Produce.partitionsEncoder

/-- What stands behind the batch: in version 9 an empty tag buffer. -/
def Version.tagBuffer : Version → Bytes
  | .v3 => []
  | .v9 => [0]

/-- The time that the record of a message is to have: its timestamp, or the current time. -/
def Message.time (dateNow : Int) (message : Message) : Int :=
  (message.timestamp.map Timestamp.value).getD dateNow

/-- The timestamps that messages have. -/
def PartitionData.given (data : PartitionData) : List Int :=
  (data.messages.filterMap Message.timestamp).map Timestamp.value

/-- A decoded batch has the times of the messages, and the latest of them as its maximum. -/
structure KeepsTimes (dateNow : Int) (messages : List Message)
    (decoded : BatchContext × List DecodedRecord) : Prop where
  records : decoded.2.map DecodedRecord.timestamp = messages.map (Message.time dateNow)
  maximum : (messages.map (Message.time dateNow)).max? = some decoded.1.maxTimestamp

/-- The batch behind the partition index keeps the times when it is decoded. -/
def TimestampsSurvive (version : Version) (codecs : Codecs) (dateNow : Int) (data : PartitionData)
    (encoder : Encoder) : Prop :=
  ∃ recordBatch,
    encoder.buffer = intBytes 4 data.partition ++ (fieldV4 recordBatch ++ version.tagBuffer) ∧
    ∃ decoded, Reads (decodeRecordBatch codecs) recordBatch decoded ∧
      KeepsTimes dateNow data.messages decoded

/-- Messages to produce: there are some, their timestamps and the current time are numbers that a
double holds, and the producer fits the fields of the batch. -/
structure PartitionData.Valid (dateNow : Int) (data : PartitionData) : Prop where
  messages : data.messages ≠ []
  now : 0 ≤ dateNow ∧ dateNow < 2 ^ 53
  timestamps : ∀ timestamp ∈ data.given, 0 ≤ timestamp ∧ timestamp < 2 ^ 53
  producerId : FitsInt 8 data.producerId
  producerEpoch : FitsInt 2 data.producerEpoch
  firstSequence : FitsInt 4 (data.firstSequence.getD 0)

/-- No timestamp is the number zero, unless that is the current time. -/
def PartitionData.NoZero (dateNow : Int) (data : PartitionData) : Prop :=
  ∀ message ∈ data.messages, message.timestamp = some (.number 0) → dateNow = 0

/-- The timestamp that comes last by its decimal notation is not before the time of any message. -/
def PartitionData.LastIsLatest (dateNow : Int) (data : PartitionData) : Prop :=
  ∀ last ∈ data.given, (∀ timestamp ∈ data.given, toString timestamp ≤ toString last) →
    ∀ message ∈ data.messages, message.time dateNow ≤ last

variable {codecs : Codecs} {compression : Option CodecType} {dateNow : Int}
  {data : PartitionData} {encoder : Encoder} {version : Version}

/-! ## The first and the last timestamp -/

/-- A timestamp of a message is one of those given. -/
theorem mem_given {message : Message} {timestamp : Timestamp} (hmessage : message ∈ data.messages)
    (h : message.timestamp = some timestamp) : timestamp.value ∈ data.given :=
  List.mem_map_of_mem (List.mem_filterMap.mpr ⟨message, hmessage, h⟩)

/-- A timestamp that is given is the time of a message. -/
theorem time_of_given {timestamp : Int} (h : timestamp ∈ data.given) :
    timestamp ∈ data.messages.map (Message.time dateNow) := by
  obtain ⟨value, hvalue, rfl⟩ := List.mem_map.mp h
  obtain ⟨message, hmessage, htimestamp⟩ := List.mem_filterMap.mp hvalue
  refine List.mem_map.mpr ⟨message, hmessage, ?_⟩
  rw [Message.time, htimestamp]
  rfl

/-- Sorting leaves no timestamps exactly if none are given. -/
theorem sort_given_eq_nil : Number.sort data.given = [] ↔ data.given = [] := by
  have hlength := (Number.sort_perm data.given).length_eq
  rw [← List.length_eq_zero_iff, hlength, List.length_eq_zero_iff]

/-- Without timestamps the time of the call is taken. -/
theorem timestamps_of_none (h : data.given = []) : data.timestamps dateNow = [dateNow] := by
  have hsort := congrArg List.length (sort_given_eq_nil.mpr h)
  exact if_pos hsort

/-- Given timestamps are sorted. -/
theorem timestamps_of_some (h : data.given ≠ []) :
    data.timestamps dateNow = Number.sort data.given := by
  refine if_neg fun hlength => h (sort_given_eq_nil.mp ?_)
  exact List.eq_nil_of_length_eq_zero hlength

/-- The first timestamp is the current time or that of a message. -/
theorem firstTimestamp_cases :
    data.firstTimestamp dateNow = dateNow ∨ data.firstTimestamp dateNow ∈ data.given := by
  rw [PartitionData.firstTimestamp]
  by_cases hgiven : data.given = []
  · rw [timestamps_of_none hgiven]
    exact Or.inl rfl
  · rw [timestamps_of_some hgiven, List.headD_eq_head?_getD]
    cases hhead : (Number.sort data.given).head? with
    | none => exact Or.inl rfl
    | some first =>
        exact Or.inr ((Number.sort_perm data.given).mem_iff.mp (List.mem_of_mem_head? hhead))

/-- The last timestamp is the current time where no message has one. Otherwise it is the one that
comes last by its notation. -/
theorem maxTimestamp_cases :
    (data.given = [] ∧ data.maxTimestamp dateNow = dateNow) ∨
      data.maxTimestamp dateNow ∈ data.given ∧
        ∀ timestamp ∈ data.given, toString timestamp ≤ toString (data.maxTimestamp dateNow) := by
  rw [PartitionData.maxTimestamp]
  by_cases hgiven : data.given = []
  · rw [timestamps_of_none hgiven]
    exact Or.inl ⟨hgiven, rfl⟩
  · have hsort := fun h => hgiven (sort_given_eq_nil.mp h)
    rw [timestamps_of_some hgiven, List.getLastD_eq_getLast?, List.getLast?_eq_some_getLast hsort]
    exact Or.inr (Number.le_getLast_sort (List.getLast?_eq_some_getLast hsort))

/-- The first timestamp of valid data is an exact number. -/
theorem firstTimestamp_range (h : data.Valid dateNow) :
    0 ≤ data.firstTimestamp dateNow ∧ data.firstTimestamp dateNow < 2 ^ 53 := by
  rcases firstTimestamp_cases with hnow | hgiven
  · rw [hnow]
    exact h.now
  · exact h.timestamps _ hgiven

/-- The last timestamp of valid data is an exact number. -/
theorem maxTimestamp_range (h : data.Valid dateNow) :
    0 ≤ data.maxTimestamp dateNow ∧ data.maxTimestamp dateNow < 2 ^ 53 := by
  rcases maxTimestamp_cases with ⟨_, hnow⟩ | ⟨hgiven, _⟩
  · rw [hnow]
    exact h.now
  · exact h.timestamps _ hgiven

/-- The maximum of the batch is the latest time exactly if the last notation is that of the
latest. -/
theorem max_times_iff (h : data.Valid dateNow) :
    (data.messages.map (Message.time dateNow)).max? = some (data.maxTimestamp dateNow) ↔
      data.LastIsLatest dateNow := by
  have hmax : (data.messages.map (Message.time dateNow)).max? =
      some (data.maxTimestamp dateNow) ↔
        data.maxTimestamp dateNow ∈ data.messages.map (Message.time dateNow) ∧
          ∀ message ∈ data.messages, message.time dateNow ≤ data.maxTimestamp dateNow := by
    rw [List.max?_eq_some_iff]
    simp only [List.forall_mem_map]
  rw [hmax]
  rcases @maxTimestamp_cases dateNow data with ⟨hnone, hnow⟩ | ⟨hgiven, hlast⟩
  · have htimes : ∀ message ∈ data.messages, message.time dateNow = dateNow := by
      intro message hmessage
      cases htimestamp : message.timestamp with
      | none => rw [Message.time, htimestamp]; rfl
      | some timestamp =>
          have hmem := mem_given hmessage htimestamp
          rw [hnone] at hmem
          cases hmem
    obtain ⟨message, hmessage⟩ := List.exists_mem_of_ne_nil _ h.messages
    constructor
    · intro _ last hmem
      rw [hnone] at hmem
      cases hmem
    · intro _
      rw [hnow]
      exact ⟨List.mem_map.mpr ⟨message, hmessage, htimes message hmessage⟩,
        fun other hother => (htimes other hother).le⟩
  · constructor
    · intro hlatest last hmem hgreatest
      -- a last time that is not below the greatest one has its notation, and with it its value
      have hsame : last = data.maxTimestamp dateNow :=
        Number.toString_inj (h.timestamps last hmem).1 (h.timestamps _ hgiven).1
          (String.le_antisymm (hlast last hmem) (hgreatest _ hgiven))
      rw [hsame]
      exact hlatest.2
    · intro hlatest
      exact ⟨time_of_given hgiven, hlatest _ hgiven hlast⟩

/-! ## The records -/

/-- The timestamp of a message of valid data is an exact number. -/
theorem timestampOr_range (h : data.Valid dateNow) {message : Message}
    (hmessage : message ∈ data.messages) :
    0 ≤ timestampOr dateNow message.timestamp ∧
      timestampOr dateNow message.timestamp < 2 ^ 53 := by
  cases htimestamp : message.timestamp with
  | none => exact h.now
  | some timestamp =>
      have hrange := h.timestamps _ (mem_given hmessage htimestamp)
      cases timestamp with
      | number value =>
          rw [timestampOr]
          split
          · exact h.now
          · exact hrange
      | string value => exact hrange

/-- The difference of two times below `2 ^ 53`, added to the one that was taken off. -/
theorem add_difference {first time : Int} (hfirst : 0 ≤ first ∧ first < 2 ^ 53)
    (htime : 0 ≤ time ∧ time < 2 ^ 53) :
    first + Number.ofInt (Number.ofInt time - Number.ofInt first) = time := by
  have htimeExact : Number.ofInt time = time := Number.ofInt_of_lt (by omega)
  have hfirstExact : Number.ofInt first = first := Number.ofInt_of_lt (by omega)
  rw [htimeExact, hfirstExact, Number.ofInt_of_lt (by omega)]
  omega

/-- The differences that the records carry, added to the first timestamp again. -/
theorem records_timestamps (h : data.Valid dateNow) :
    ((data.records dateNow).map fun record =>
        data.firstTimestamp dateNow + record.timestampDelta) =
      data.messages.map fun message => timestampOr dateNow message.timestamp := by
  refine List.ext_getElem (by simp [PartitionData.records]) fun i hindex hi => ?_
  rw [List.length_map] at hindex hi
  rw [List.getElem_map, List.getElem_map]
  have hrecord : (data.records dateNow)[i].timestampDelta =
      Number.ofInt (Number.ofInt (timestampOr dateNow data.messages[i].timestamp) -
        Number.ofInt (data.firstTimestamp dateNow)) := by
    simp only [PartitionData.records, List.getElem_mapIdx]
  rw [hrecord]
  exact add_difference (firstTimestamp_range h) (timestampOr_range h (List.getElem_mem hi))

/-- The records have the times of their messages exactly if no time is taken for absent. -/
theorem times_iff :
    (data.messages.map fun message => timestampOr dateNow message.timestamp) =
        data.messages.map (Message.time dateNow) ↔ data.NoZero dateNow := by
  rw [List.map_inj_left]
  refine forall₂_congr fun message _ => ?_
  rw [Message.time]
  cases message.timestamp with
  | none => simp [timestampOr]
  | some timestamp =>
      cases timestamp with
      | number value =>
          by_cases hzero : value = 0
          · subst hzero
            simp [timestampOr, Timestamp.value]
          · simp [timestampOr, Timestamp.value, hzero]
      | string value => simp [timestampOr, Timestamp.value]

/-! ## The batch -/

/-- An exact number fits in an `int64`. -/
theorem fitsInt_of_lt {value : Int} (h : 0 ≤ value ∧ value < 2 ^ 53) : FitsInt 8 value := by
  unfold FitsInt
  omega

/-- The batch of valid data is in the range of its fields. -/
theorem recordBatch_inRange (h : data.Valid dateNow)
    (hrecords : (data.recordBatch compression dateNow).recordsBytes.length < 2 ^ 31) :
    (data.recordBatch compression dateNow).InRange := by
  have hlength : (data.records dateNow).length < 2 ^ 31 :=
    Nat.lt_of_le_of_lt (@RecordBatch.length_records_le (data.recordBatch compression dateNow))
      hrecords
  refine
    { firstOffset := show FitsInt 8 0 by decide
      firstTimestamp := fitsInt_of_lt (firstTimestamp_range h)
      maxTimestamp := fitsInt_of_lt (maxTimestamp_range h)
      partitionLeaderEpoch := show FitsInt 4 0 by decide
      lastOffsetDelta := ?_
      producerId := h.producerId
      producerEpoch := h.producerEpoch
      firstSequence := h.firstSequence
      records := ?_ }
  · show FitsInt 4 ((data.records dateNow).length - 1)
    unfold FitsInt
    omega
  · intro record hrecord
    obtain ⟨i, hi, rfl⟩ := List.mem_mapIdx.mp hrecord
    rw [PartitionData.records, List.length_mapIdx] at hlength
    have hfirst := firstTimestamp_range h
    have htime := timestampOr_range h (List.getElem_mem hi)
    have hdifference := add_difference hfirst htime
    unfold FitsInt
    dsimp only
    omega

/-- What becomes of the timestamps: the decoded batch has those that the encoder chose. -/
theorem survive_iff_times (h : data.Valid dateNow)
    (hcodec : (data.recordBatch compression dateNow).HasCodec codecs)
    (hrecords : (data.recordBatch compression dateNow).recordsBytes.length < 2 ^ 31)
    (hbytes : ((data.recordBatch compression dateNow).bytes codecs).length < 2 ^ 31)
    (hok : version.partitionsEncoder codecs compression dateNow data = .ok encoder) :
    TimestampsSurvive version codecs dateNow data encoder ↔
      (data.messages.map fun message => timestampOr dateNow message.timestamp) =
          data.messages.map (Message.time dateNow) ∧
        (data.messages.map (Message.time dateNow)).max? = some (data.maxTimestamp dateNow) := by
  have hrange := recordBatch_inRange h hrecords
  obtain ⟨recordBatch, hbatch, hbuffer⟩ : ∃ recordBatch,
      (data.recordBatch compression dateNow).encode codecs = .ok recordBatch ∧
        encoder.buffer = intBytes 4 data.partition ++
          (fieldV4 recordBatch.buffer ++ version.tagBuffer) := by
    cases version with
    | v3 =>
        obtain ⟨recordBatch, hbatch, _, hholds⟩ := V3.partitionsEncoder_holds hok
        exact ⟨recordBatch, hbatch, by rw [hholds.buffer_eq, Version.tagBuffer, List.append_nil]⟩
    | v9 =>
        obtain ⟨recordBatch, hbatch, _, hbuffer⟩ := partitionsEncoder_buffer hok
        exact ⟨recordBatch, hbatch, hbuffer⟩
  obtain ⟨hholds, _, _⟩ := RecordBatch.encode_holds hcodec hrange hrecords hbytes hbatch
  have hreads := reads_decodeRecordBatch hcodec hrange hrecords hbytes
  rw [← hholds.buffer_eq] at hreads
  have hdecoded : ((data.recordBatch compression dateNow).records.map
      (Record.decoded (data.recordBatch compression dateNow))).map DecodedRecord.timestamp =
        data.messages.map fun message => timestampOr dateNow message.timestamp := by
    rw [List.map_map]
    exact records_timestamps h
  constructor
  · rintro ⟨field, hfield, decoded, hread, hkeeps⟩
    rw [hbuffer] at hfield
    have hsame := List.append_cancel_right (List.append_cancel_left hfield)
    -- the encoder determines the bytes of the field
    have hpayload : recordBatch.buffer = field :=
      List.append_inj_right hsame (by rw [length_intBytes, length_intBytes])
    rw [← hpayload] at hread
    cases RecordBatch.reads_unique hreads hread
    exact ⟨hdecoded.symm.trans hkeeps.records, hkeeps.maximum⟩
  · rintro ⟨htimes, hmax⟩
    exact ⟨recordBatch.buffer, hbuffer, _, hreads, ⟨hdecoded.trans htimes, hmax⟩⟩

/-- The timestamps survive exactly if none is the number zero, unless it is the current time, and
the one that comes last by its decimal notation is the latest of all times. -/
theorem survive_iff (h : data.Valid dateNow)
    (hcodec : (data.recordBatch compression dateNow).HasCodec codecs)
    (hrecords : (data.recordBatch compression dateNow).recordsBytes.length < 2 ^ 31)
    (hbytes : ((data.recordBatch compression dateNow).bytes codecs).length < 2 ^ 31)
    (hok : version.partitionsEncoder codecs compression dateNow data = .ok encoder) :
    TimestampsSurvive version codecs dateNow data encoder ↔
      data.NoZero dateNow ∧ data.LastIsLatest dateNow := by
  rw [survive_iff_times h hcodec hrecords hbytes hok, times_iff, max_times_iff h]

/-! ## Samples -/

/-- Messages with given timestamps. -/
def timedSample (timestamps : List (Option Timestamp)) : PartitionData :=
  { partition := 3
    messages := timestamps.map fun timestamp =>
      { key := none, value := some (.string (Text.ofString "v")), timestamp } }

/-- Samples with timestamps in range are valid. -/
theorem timedSample_valid {timestamps : List (Option Timestamp)} (hmessages : timestamps ≠ [])
    (hnow : 0 ≤ dateNow ∧ dateNow < 2 ^ 53)
    (h : ∀ timestamp ∈ (timedSample timestamps).given, 0 ≤ timestamp ∧ timestamp < 2 ^ 53) :
    (timedSample timestamps).Valid dateNow where
  messages := fun hnil => hmessages (List.map_eq_nil_iff.mp hnil)
  now := hnow
  timestamps := h
  producerId := show FitsInt 8 (-1) by decide
  producerEpoch := show FitsInt 2 0 by decide
  firstSequence := show FitsInt 4 0 by decide

/-- Samples are not compressed. -/
theorem timedSample_hasCodec (timestamps : List (Option Timestamp)) :
    ((timedSample timestamps).recordBatch none dateNow).HasCodec RecordBatch.noCodecs := by
  intro type htype
  cases htype

/-- A timestamp and a message without, behind the current time. -/
theorem survive_sample : ∃ encoder,
    Version.v3.partitionsEncoder RecordBatch.noCodecs none 1500000000000
        (timedSample [some (.string 1500000000010), none]) = .ok encoder ∧
      TimestampsSurvive .v3 RecordBatch.noCodecs 1500000000000
        (timedSample [some (.string 1500000000010), none]) encoder := by
  obtain ⟨encoder, hencoder⟩ := ok_of_isSome (show (Version.v3.partitionsEncoder
    RecordBatch.noCodecs none 1500000000000
      (timedSample [some (.string 1500000000010), none])).toOption.isSome by decide +kernel)
  refine ⟨encoder, hencoder, (survive_iff (timedSample_valid (by decide) (by decide) (by decide))
    (timedSample_hasCodec _) (by decide +kernel) (by decide +kernel) hencoder).mpr ⟨?_, ?_⟩⟩
  · unfold PartitionData.NoZero
    decide
  · unfold PartitionData.LastIsLatest
    decide +kernel

/-- The timestamps 9 and 10, of which 9 comes last as a text, and the timestamp 0 as a number, which
is taken for none. -/
theorem not_survive_samples :
    (∃ encoder, Version.v3.partitionsEncoder RecordBatch.noCodecs none 1500000000000
        (timedSample [some (.string 9), some (.string 10)]) = .ok encoder ∧
      ¬ TimestampsSurvive .v3 RecordBatch.noCodecs 1500000000000
        (timedSample [some (.string 9), some (.string 10)]) encoder) ∧
    ∃ encoder, Version.v9.partitionsEncoder RecordBatch.noCodecs none 1500000000000
        (timedSample [some (.number 0)]) = .ok encoder ∧
      ¬ TimestampsSurvive .v9 RecordBatch.noCodecs 1500000000000
        (timedSample [some (.number 0)]) encoder := by
  obtain ⟨digits, hdigits⟩ := ok_of_isSome (show (Version.v3.partitionsEncoder
    RecordBatch.noCodecs none 1500000000000
      (timedSample [some (.string 9), some (.string 10)])).toOption.isSome by decide +kernel)
  obtain ⟨zero, hzero⟩ := ok_of_isSome (show (Version.v9.partitionsEncoder
    RecordBatch.noCodecs none 1500000000000
      (timedSample [some (.number 0)])).toOption.isSome by decide +kernel)
  refine ⟨⟨digits, hdigits, fun hsurvive => ?_⟩, ⟨zero, hzero, fun hsurvive => ?_⟩⟩
  · have hmax := ((survive_iff_times (timedSample_valid (by decide) (by decide) (by decide))
      (timedSample_hasCodec _) (by decide +kernel) (by decide +kernel) hdigits).mp hsurvive).2
    revert hmax
    decide +kernel
  · have htimes := ((survive_iff_times (timedSample_valid (by decide) (by decide) (by decide))
      (timedSample_hasCodec _) (by decide +kernel) (by decide +kernel) hzero).mp hsurvive).1
    revert htimes
    decide +kernel

end KafkaJs.Protocol.Produce
