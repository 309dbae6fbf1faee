import KafkaJs.Data.Traversal
import KafkaJs.Protocol.RecordBatch

/-!
# The bytes of a record batch

What the encoder of a record batch produces, as a function of the batch: `Header.bytes`,
`Record.bytes` and `RecordBatch.bytes`. The length that `Record.encode` computes ahead is the
length of what it writes (`Record.encode_builds`). A null header value makes it throw
(`Record.encode_null`), because its size is taken before it is compared with null.

`RecordBatch.encode_ok` and `RecordBatch.encode_holds` say when the encoder succeeds and what it
then holds. Sizes matter: the encoder throws where a batch would take `2 ^ 30` bytes.
-/

namespace KafkaJs.Protocol

open KafkaJs.Data

/-- Bytes behind a length are not empty. -/
theorem lengthPrefixed_ne_nil (value : Option Bytes) : lengthPrefixed value ≠ [] := by
  cases value with
  | none => exact varIntBytes_ne_nil _
  | some bytes => exact List.append_ne_nil_of_left_ne_nil (varIntBytes_ne_nil _) _

/-! ## Records -/

/-- The bytes of a header. -/
def Header.bytes (header : Header) : Bytes :=
  lengthPrefixed (some header.key.toUtf8) ++ lengthPrefixed (header.value.map Payload.bytes)

/-- The bytes of the headers of a record: their number, then each of them. -/
def headersBytes (headersArray : List Header) : Bytes :=
  varIntBytes headersArray.length ++ (headersArray.map Header.bytes).flatten

/-- The bytes of a record after its length. -/
def Record.body (record : Record) : Bytes :=
  intBytes 1 0 ++ (varLongBytes record.timestampDelta ++ (varIntBytes record.offsetDelta ++
    (lengthPrefixed (record.key.map Payload.bytes) ++
      (lengthPrefixed (record.value.map Payload.bytes) ++ headersBytes record.headersArray))))

/-- The bytes of a record. -/
def Record.bytes (record : Record) : Bytes := lengthPrefixed (some record.body)

/-- No header of the record has the value null. -/
def Record.NoNullHeader (record : Record) : Prop :=
  ∀ header ∈ record.headersArray, header.value ≠ none

/-- `NoNullHeader` is decidable header by header. -/
instance (record : Record) : Decidable record.NoNullHeader :=
  inferInstanceAs (Decidable (∀ header ∈ record.headersArray, _))

/-- A header is encoded as its key and its value. -/
theorem Header.encode_builds (header : Header) : Builds header.encode header.bytes :=
  ((writes_writeVarIntString header.key).bind (writes_writeVarIntBytes header.value)).builds

/-- One round of the loop over the headers. -/
theorem sizeOfHeadersLoop_cons {header : Header} {value : Payload}
    (hvalue : header.value = some value) (headers : List Header) (size : Nat) :
    sizeOfHeadersLoop (header :: headers) size =
      sizeOfHeadersLoop headers (size + sizeOfVarInt header.key.toUtf8.length +
        header.key.toUtf8.length + sizeOfVarInt (byteLength value) + byteLength value) := by
  rw [sizeOfHeadersLoop, hvalue]
  rfl

/-- The loop over headers without null adds up their lengths. -/
theorem sizeOfHeadersLoop_eq {headers : List Header} (h : ∀ header ∈ headers, header.value ≠ none)
    (size : Nat) :
    sizeOfHeadersLoop headers size =
      .ok (size + ((headers.map Header.bytes).flatten).length) := by
  induction headers generalizing size with
  | nil => rfl
  | cons header headers ih =>
      obtain ⟨value, hvalue⟩ := Option.ne_none_iff_exists'.mp (h header List.mem_cons_self)
      have hsize : header.bytes.length = sizeOfVarInt header.key.toUtf8.length +
          header.key.toUtf8.length + (sizeOfVarInt (byteLength value) + byteLength value) := by
        rw [Header.bytes, hvalue, List.length_append, sizeOfVarInt_eq, sizeOfVarInt_eq,
          byteLength]
        simp [lengthPrefixed]
      rw [sizeOfHeadersLoop_cons hvalue,
        ih fun other hother => h other (List.mem_cons_of_mem header hother), List.map_cons,
        List.flatten_cons, List.length_append, hsize]
      congr 1
      omega

/-- The size of the headers computed ahead is the number of bytes they take. -/
theorem sizeOfHeaders_eq {headers : List Header} (h : ∀ header ∈ headers, header.value ≠ none) :
    sizeOfHeaders headers = .ok (headersBytes headers).length := by
  rw [sizeOfHeaders, sizeOfHeadersLoop_eq h, sizeOfVarInt_eq, headersBytes, List.length_append]

/-- The loop over the headers throws if a value is null. -/
theorem sizeOfHeadersLoop_null {headers : List Header} (h : ∃ header ∈ headers, header.value = none)
    (size : Nat) : ∃ error, sizeOfHeadersLoop headers size = .error error := by
  induction headers generalizing size with
  | nil => simp at h
  | cons header headers ih =>
      cases hvalue : header.value with
      | none => exact ⟨_, by rw [sizeOfHeadersLoop, hvalue]; rfl⟩
      | some value =>
          have hrest : ∃ other ∈ headers, other.value = none := by
            obtain ⟨other, hmem, hnone⟩ := h
            rcases List.mem_cons.mp hmem with rfl | hmem
            · rw [hvalue] at hnone
              cases hnone
            · exact ⟨other, hmem, hnone⟩
          rw [sizeOfHeadersLoop_cons hvalue]
          exact ih hrest _

/-- A record with a null header value is not encoded. -/
theorem Record.encode_null {record : Record} (h : ¬ record.NoNullHeader) :
    ∃ error, record.encode = .error error := by
  have hnull : ∃ header ∈ record.headersArray, header.value = none := by
    simpa [Record.NoNullHeader] using h
  obtain ⟨error, herror⟩ := sizeOfHeadersLoop_null hnull (sizeOfVarInt record.headersArray.length)
  exact ⟨error, by rw [Record.encode, sizeOfHeaders, herror]; rfl⟩

/-- A record is encoded as its length and its body. -/
theorem Record.write_builds (record : Record) :
    Builds (record.write record.body.length) record.bytes := by
  have hheaders : Writes (fun encoder => record.headersArray.mapM Header.encode >>= fun headers =>
      encoder.writeVarIntArray headers) (headersBytes record.headersArray) := by
    refine writes_built (varIntBytes_ne_nil _) (fun header _ => header.encode_builds)
      fun encoders hall => ?_
    have hwrites := writes_writeVarIntArray hall
    rwa [List.length_map] at hwrites
  have hwrites := (writes_writeVarInt record.body.length).bind
    ((@writes_writeInt 1 0 (by decide) (by decide)).bind
      ((writes_writeVarLong record.timestampDelta).bind
        ((writes_writeVarInt record.offsetDelta).bind
          ((writes_writeVarIntBytes record.key).bind
            ((writes_writeVarIntBytes record.value).bind hheaders)))))
  exact hwrites.builds

/-- A record without null header values is encoded behind its exact length. -/
theorem Record.encode_builds {record : Record} (h : record.NoNullHeader) :
    Builds record.encode record.bytes := by
  have hsize : 1 + sizeOfVarLong record.timestampDelta + sizeOfVarInt record.offsetDelta +
      sizeOfVarIntBytes record.key + sizeOfVarIntBytes record.value +
      (headersBytes record.headersArray).length = record.body.length := by
    rw [sizeOfVarLong_eq, sizeOfVarInt_eq, sizeOfVarIntBytes_eq, sizeOfVarIntBytes_eq, Record.body]
    simp only [List.length_append, length_intBytes]
    omega
  rw [Record.encode, sizeOfHeaders_eq h, ok_bind, hsize]
  exact record.write_builds

/-! ## Batches -/

/-- Decompressing undoes compressing. -/
def Codec.Lossless (codec : Codec) : Prop :=
  ∀ data, ∃ compressed,
    codec.compress data = .ok compressed ∧ codec.decompress compressed = .ok data

namespace RecordBatch

/-- The records are compressed by a codec that is registered and lossless, or not at all. -/
def HasCodec {ρ : Type} (codecs : Codecs) (batch : RecordBatch ρ) : Prop :=
  ∀ type, batch.compression = some type → ∃ codec, codecs type = .ok codec ∧ codec.Lossless

/-- The values of the batch fit the fields that carry them. -/
structure InRange (batch : RecordBatch Record) : Prop where
  firstOffset : FitsInt 8 batch.firstOffset
  firstTimestamp : FitsInt 8 batch.firstTimestamp
  maxTimestamp : FitsInt 8 batch.maxTimestamp
  partitionLeaderEpoch : FitsInt 4 batch.partitionLeaderEpoch
  lastOffsetDelta : FitsInt 4 batch.lastOffsetDelta
  producerId : FitsInt 8 batch.producerId
  producerEpoch : FitsInt 2 batch.producerEpoch
  firstSequence : FitsInt 4 batch.firstSequence
  records : ∀ record ∈ batch.records,
    FitsInt 4 record.offsetDelta ∧ FitsInt 8 record.timestampDelta

/-- The bytes of the records, one after the other. -/
def recordsBytes (batch : RecordBatch Record) : Bytes := (batch.records.map Record.bytes).flatten

/-- The bytes of the records as the batch carries them. -/
def carriedRecords (codecs : Codecs) (batch : RecordBatch Record) : Bytes :=
  match batch.compression with
  | none => batch.recordsBytes
  | some type =>
      match codecs type >>= fun codec => codec.compress batch.recordsBytes with
      | .ok compressed => compressed
      | .error _ => []

/-- The bytes that the checksum covers. -/
def bodyBytes (codecs : Codecs) (batch : RecordBatch Record) : Bytes :=
  intBytes 2 batch.attributes ++ (intBytes 4 batch.lastOffsetDelta ++
    (int64Bytes batch.firstTimestamp ++ (int64Bytes batch.maxTimestamp ++
      (int64Bytes batch.producerId ++ (intBytes 2 batch.producerEpoch ++
        (intBytes 4 batch.firstSequence ++
          (intBytes 4 batch.records.length ++ batch.carriedRecords codecs)))))))

/-- The bytes that the length of the batch covers. -/
def innerBytes (codecs : Codecs) (batch : RecordBatch Record) : Bytes :=
  intBytes 4 batch.partitionLeaderEpoch ++ (intBytes 1 2 ++
    (bigEndian 4 (crc32C (batch.bodyBytes codecs)) ++ batch.bodyBytes codecs))

/-- The bytes of the batch. -/
def bytes (codecs : Codecs) (batch : RecordBatch Record) : Bytes :=
  int64Bytes batch.firstOffset ++
    (intBytes 4 (batch.innerBytes codecs).length ++ batch.innerBytes codecs)

variable {codecs : Codecs} {batch : RecordBatch Record} {encoders : List Encoder}

/-- Only five bits of the attributes are used. -/
theorem attributes_lt {ρ : Type} (batch : RecordBatch ρ) : batch.attributes < 2 ^ 5 := by
  refine Nat.or_lt_two_pow ?_ ?_
  · omega
  · split <;> decide

/-- There are no more records than bytes. -/
theorem length_records_le : batch.records.length ≤ batch.recordsBytes.length := by
  rw [recordsBytes, ← List.flatMap_def]
  exact length_le_flatMap fun _ _ => List.length_pos_iff.mpr (lengthPrefixed_ne_nil _)

/-- The plain records are written one after the other. -/
theorem writeRecords_plain (hcompression : batch.compression = none)
    (hall : HoldAll encoders (batch.records.map Record.bytes))
    (hlength : batch.recordsBytes.length < 2 ^ 31) :
    Writes (writeRecords codecs { batch with records := encoders })
      (intBytes 4 batch.records.length ++ batch.carriedRecords codecs) := by
  have hcount := @length_records_le batch
  have hwrites := writes_writeArray hall (by rw [List.length_map]; omega)
  rw [List.length_map] at hwrites
  have hcarried : batch.carriedRecords codecs = batch.recordsBytes := by
    rw [carriedRecords, hcompression]
  have hop : writeRecords codecs { batch with records := encoders } =
      Encoder.writeArray encoders := by
    funext encoder
    rw [writeRecords, hcompression]
  rw [hop, hcarried]
  exact hwrites

/-- The compressed records are written once their plain form could be built. -/
theorem writeRecords_compressed {type : CodecType} (hcompression : batch.compression = some type)
    (hcodec : batch.HasCodec codecs) (hall : HoldAll encoders (batch.records.map Record.bytes))
    (hlength : batch.recordsBytes.length < 2 ^ 31) :
    (Writes (writeRecords codecs { batch with records := encoders })
        (intBytes 4 batch.records.length ++ batch.carriedRecords codecs) ∧
      batch.recordsBytes.length ≤ 2 ^ 30) ∨
      (2 ^ 30 ≤ batch.recordsBytes.length ∧ ∀ encoder, ∃ error,
        writeRecords codecs { batch with records := encoders } encoder = .error error) := by
  have hcount := @length_records_le batch
  obtain ⟨codec, hlookup, hlossless⟩ := hcodec type hcompression
  obtain ⟨compressed, hcompress, _⟩ := hlossless batch.recordsBytes
  rcases (writes_writeEncoderArray hall).builds hlength with
    ⟨recordsEncoder, hbuilt, hholds⟩ | ⟨hlarge, error, herror⟩
  · have hbuffer : recordsEncoder.buffer = batch.recordsBytes := hholds.buffer_eq
    have hcarried : batch.carriedRecords codecs = compressed := by
      rw [carriedRecords, hcompression]
      simp only [hlookup, ok_bind, hcompress]
    have hnumber : encoders.length = batch.records.length := by
      simpa using hall.length_eq
    have hop : writeRecords codecs { batch with records := encoders } = fun encoder =>
        encoder.writeInt32 batch.records.length >>= Encoder.writeBufferInternal compressed := by
      funext encoder
      rw [writeRecords, hcompression]
      simp only [hlookup, ok_bind, hbuilt, hbuffer, hcompress, hnumber]
    refine Or.inl ⟨?_, hholds.length_le.trans hholds.bounded⟩
    rw [hop, hcarried]
    exact (@writes_writeInt 4 batch.records.length (by omega) (by omega)).bind
      (writes_writeBufferInternal compressed)
  · refine Or.inr ⟨hlarge, fun encoder => ⟨error, ?_⟩⟩
    rw [writeRecords, hcompression]
    simp only [hlookup, ok_bind, herror, error_bind]

/-- The records are written, or their plain form takes `2 ^ 30` bytes or more and writing throws. -/
theorem writeRecords_cases (hcodec : batch.HasCodec codecs)
    (hall : HoldAll encoders (batch.records.map Record.bytes))
    (hlength : batch.recordsBytes.length < 2 ^ 31) :
    (Writes (writeRecords codecs { batch with records := encoders })
        (intBytes 4 batch.records.length ++ batch.carriedRecords codecs) ∧
      (batch.compression ≠ none → batch.recordsBytes.length ≤ 2 ^ 30)) ∨
      (2 ^ 30 ≤ batch.recordsBytes.length ∧ ∀ encoder, ∃ error,
        writeRecords codecs { batch with records := encoders } encoder = .error error) := by
  rcases Option.eq_none_or_eq_some batch.compression with hnone | ⟨type, hsome⟩
  · exact Or.inl ⟨writeRecords_plain hnone hall hlength, fun h => absurd hnone h⟩
  · rcases writeRecords_compressed hsome hcodec hall hlength with ⟨hwrites, hplain⟩ | hthrows
    · exact Or.inl ⟨hwrites, fun _ => hplain⟩
    · exact Or.inr hthrows

/-- A batch that is encoded had its records written. -/
theorem writeRecords_of_ofEncoders {batch : RecordBatch Encoder} {encoder : Encoder}
    (hok : batch.ofEncoders codecs = .ok encoder) :
    ∃ batchBody next, batch.writeRecords codecs batchBody = .ok next := by
  obtain ⟨batchBody, hbody, -⟩ := bind_eq_ok hok
  obtain ⟨_, -, hbody⟩ := bind_eq_ok hbody
  obtain ⟨_, -, hbody⟩ := bind_eq_ok hbody
  obtain ⟨_, -, hbody⟩ := bind_eq_ok hbody
  obtain ⟨_, -, hbody⟩ := bind_eq_ok hbody
  obtain ⟨_, -, hbody⟩ := bind_eq_ok hbody
  obtain ⟨_, -, hbody⟩ := bind_eq_ok hbody
  obtain ⟨fields, -, hbody⟩ := bind_eq_ok hbody
  exact ⟨fields, batchBody, hbody⟩

/-- The body of the batch, given the write of its records. -/
theorem body_builds (hrange : batch.InRange)
    (hrecords : Writes (writeRecords codecs { batch with records := encoders })
      (intBytes 4 batch.records.length ++ batch.carriedRecords codecs)) :
    Builds (body codecs { batch with records := encoders }) (batch.bodyBytes codecs) := by
  have hattributes := attributes_lt batch
  have hwrites := (@writes_writeInt 2 batch.attributes (by omega) (by omega)).bind
    ((writes_writeInt hrange.lastOffsetDelta.1 hrange.lastOffsetDelta.2).bind
      ((writes_writeInt64 batch.firstTimestamp).bind
        ((writes_writeInt64 batch.maxTimestamp).bind
          ((writes_writeInt64 batch.producerId).bind
            ((writes_writeInt hrange.producerEpoch.1 hrange.producerEpoch.2).bind
              ((writes_writeInt hrange.firstSequence.1 hrange.firstSequence.2).bind
                hrecords))))))
  exact hwrites.builds

/-- The part behind the checksum is encoded. -/
theorem checked_builds (hrange : batch.InRange) {batchBody : Encoder}
    (hholds : batchBody.Holds (batch.bodyBytes codecs)) :
    Builds (batch.checked batchBody) (batch.innerBytes codecs) := by
  have hwrites := (writes_writeInt hrange.partitionLeaderEpoch.1
    hrange.partitionLeaderEpoch.2).bind
    ((@writes_writeInt 1 2 (by decide) (by decide)).bind
      ((writes_writeUInt32 (crc32C_lt batchBody.buffer)).bind
        (writes_writeBufferInternal batchBody.buffer)))
  rw [innerBytes, ← hholds.buffer_eq]
  exact hwrites.builds

/-- The batch is framed by its first offset and its length. -/
theorem framed_builds {content : Encoder} (hholds : content.Holds (batch.innerBytes codecs))
    (hlength : (batch.innerBytes codecs).length < 2 ^ 31) :
    Builds (batch.framed content) (batch.bytes codecs) := by
  have hwrites := (writes_writeInt64 batch.firstOffset).bind (writes_writeBytes hlength)
  rw [bytes]
  rw [← hholds.buffer_eq] at hwrites ⊢
  exact hwrites.builds

/-- The length of what the length field counts. -/
theorem length_innerBytes :
    (batch.innerBytes codecs).length = 9 + (batch.bodyBytes codecs).length := by
  simp only [innerBytes, List.length_append, length_intBytes, length_bigEndian]
  omega

/-- The length of a batch. -/
theorem length_bytes : (batch.bytes codecs).length = 12 + (batch.innerBytes codecs).length := by
  simp only [bytes, List.length_append, length_int64Bytes, length_intBytes]
  omega

/-- The batch around records whose encoders are given. -/
theorem ofEncoders_builds (hrange : batch.InRange)
    (hrecords : Writes (writeRecords codecs { batch with records := encoders })
      (intBytes 4 batch.records.length ++ batch.carriedRecords codecs))
    (hlength : (batch.bytes codecs).length < 2 ^ 31) :
    Builds (ofEncoders codecs { batch with records := encoders }) (batch.bytes codecs) := by
  have hinner := @length_innerBytes codecs batch
  have htotal := @length_bytes codecs batch
  refine (body_builds hrange hrecords).bind (fun batchBody hbody => ?_) (by omega)
  refine Builds.bind (checked_builds hrange hbody) (fun content hcontent => ?_) (by omega)
  exact framed_builds hcontent (by omega)

/-- The last write makes all its room at once, so a batch that is encoded takes less than
`2 ^ 30` bytes. -/
theorem framed_lt {content encoder : Encoder} (hholds : content.Holds (batch.innerBytes codecs))
    (hlength : (batch.bytes codecs).length < 2 ^ 31) (hok : batch.framed content = .ok encoder) :
    (batch.bytes codecs).length < 2 ^ 30 := by
  have htotal := @length_bytes codecs batch
  have hroom : ([] : Bytes).length + 8 ≤ Encoder.new.buf.length := by
    rw [Encoder.new, List.length_replicate]
    decide
  have hsmall : Encoder.new.buf.length = 512 := List.length_replicate
  obtain ⟨outer, houter, hfirst, hkept⟩ :=
    putInt64_ok batch.firstOffset Encoder.holds_new hroom
  by_contra hlarge
  have herror : outer.ensureAvailable (4 + content.buffer.length) = .error outOfRange := by
    rw [hholds.buffer_eq]
    have hlength8 : ([] ++ int64Bytes batch.firstOffset).length = 8 := by simp
    exact Encoder.ensureAvailable_error hfirst (by omega) (by omega) (by omega)
  rw [framed, Encoder.writeInt64, Encoder.ensureAvailable_of_le Encoder.holds_new hroom, ok_bind,
    houter, ok_bind, Encoder.writeBytes, herror, error_bind] at hok
  cases hok

/-- No header of the batch has the value null. -/
def NoNullHeader (batch : RecordBatch Record) : Prop :=
  ∀ record ∈ batch.records, record.NoNullHeader

/-- `NoNullHeader` is decidable record by record. -/
instance (batch : RecordBatch Record) : Decidable batch.NoNullHeader :=
  inferInstanceAs (Decidable (∀ record ∈ batch.records, _))

/-- The batch fits an encoder, and so do its plain records where they are compressed. -/
def Fits (codecs : Codecs) (batch : RecordBatch Record) : Prop :=
  (batch.bytes codecs).length < 2 ^ 30 ∧
    (batch.compression ≠ none → batch.recordsBytes.length < 2 ^ 30)

/-- Without compression the records are part of the batch. -/
theorem recordsBytes_le_of_plain (hcompression : batch.compression = none) :
    batch.recordsBytes.length ≤ (batch.bytes codecs).length := by
  have hcarried : batch.carriedRecords codecs = batch.recordsBytes := by
    rw [carriedRecords, hcompression]
  have hbody : batch.recordsBytes.length ≤ (batch.bodyBytes codecs).length := by
    simp only [bodyBytes, List.length_append, hcarried]
    omega
  have hinner := @length_innerBytes codecs batch
  have htotal := @length_bytes codecs batch
  omega

/-- A batch without null header values that fits is encoded. -/
theorem encode_ok (hcodec : batch.HasCodec codecs) (hrange : batch.InRange)
    (hnull : batch.NoNullHeader) (hfits : batch.Fits codecs) :
    ∃ encoder, batch.encode codecs = .ok encoder ∧ encoder.Holds (batch.bytes codecs) := by
  have hrecords : batch.recordsBytes.length < 2 ^ 30 := by
    by_cases hcompression : batch.compression = none
    · exact (recordsBytes_le_of_plain hcompression).trans_lt hfits.1
    · exact hfits.2 hcompression
  have hflat : batch.records.flatMap Record.bytes = batch.recordsBytes := List.flatMap_def ..
  rcases builds_mapM (fun record hmem => Record.encode_builds (hnull record hmem))
    (by rw [hflat]; omega) with ⟨encoders, hencoders, hall⟩ | ⟨hlarge, _⟩
  · rcases writeRecords_cases hcodec hall (by omega) with ⟨hwrites, _⟩ | ⟨hlarge, _⟩
    · have hfit := hfits.1
      rw [encode, hencoders, ok_bind]
      exact (ofEncoders_builds hrange hwrites (by omega)).ok hfit
    · omega
  · rw [hflat] at hlarge
    omega

/-- A batch that is encoded has no null header value. -/
theorem noNullHeader_of_encode {encoder : Encoder} (hok : batch.encode codecs = .ok encoder) :
    batch.NoNullHeader := by
  intro record hmem
  by_contra hnull
  obtain ⟨error, herror⟩ := mapM_error hmem (Record.encode_null hnull)
  rw [encode, herror, error_bind] at hok
  cases hok

/-- The batch around given records: what it holds, and that it takes less than `2 ^ 30` bytes. -/
theorem ofEncoders_holds (hrange : batch.InRange)
    (hrecords : Writes (writeRecords codecs { batch with records := encoders })
      (intBytes 4 batch.records.length ++ batch.carriedRecords codecs))
    (hlength : (batch.bytes codecs).length < 2 ^ 31) {encoder : Encoder}
    (hok : ofEncoders codecs { batch with records := encoders } = .ok encoder) :
    encoder.Holds (batch.bytes codecs) ∧ (batch.bytes codecs).length < 2 ^ 30 := by
  have hinner := @length_innerBytes codecs batch
  have htotal := @length_bytes codecs batch
  refine ⟨(ofEncoders_builds hrange hrecords hlength).holds hlength hok, ?_⟩
  obtain ⟨batchBody, hbody, hok⟩ := bind_eq_ok hok
  obtain ⟨content, hcontent, hok⟩ := bind_eq_ok hok
  have hbodyHolds := (body_builds hrange hrecords).holds (by omega) hbody
  have hcontentHolds := (checked_builds hrange hbodyHolds).holds (by omega) hcontent
  exact framed_lt hcontentHolds hlength hok

/-- What an encoded batch of less than `2 ^ 31` bytes holds. -/
theorem encode_holds (hcodec : batch.HasCodec codecs) (hrange : batch.InRange)
    (hrecords : batch.recordsBytes.length < 2 ^ 31) (hlength : (batch.bytes codecs).length < 2 ^ 31)
    {encoder : Encoder} (hok : batch.encode codecs = .ok encoder) :
    encoder.Holds (batch.bytes codecs) ∧ (batch.bytes codecs).length < 2 ^ 30 ∧
      (batch.compression ≠ none → batch.recordsBytes.length ≤ 2 ^ 30) := by
  have hnull := noNullHeader_of_encode hok
  have hflat : batch.records.flatMap Record.bytes = batch.recordsBytes := List.flatMap_def ..
  obtain ⟨encoders, hencoders, hok⟩ := bind_eq_ok hok
  rcases builds_mapM (fun record hmem => Record.encode_builds (hnull record hmem))
    (by rw [hflat]; exact hrecords) with ⟨others, hothers, hall⟩ | ⟨_, error, herror⟩
  · cases hothers.symm.trans hencoders
    rcases writeRecords_cases hcodec hall hrecords with ⟨hwrites, hplain⟩ | ⟨_, hthrows⟩
    · obtain ⟨hholds, hlt⟩ := ofEncoders_holds hrange hwrites hlength hok
      exact ⟨hholds, hlt, hplain⟩
    · obtain ⟨batchBody, next, hwritten⟩ := writeRecords_of_ofEncoders hok
      obtain ⟨error, herror⟩ := hthrows batchBody
      cases hwritten.symm.trans herror
  · cases herror.symm.trans hencoders

end RecordBatch

end KafkaJs.Protocol
