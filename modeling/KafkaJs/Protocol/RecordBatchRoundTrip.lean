import KafkaJs.Protocol.RecordBatchEncoding
import Mathlib.Data.List.Induction

/-!
# Record batches read back

The decoder of record batches applied to the bytes of `RecordBatch.bytes`. `Yields` is the
counterpart of `Reads` for a reader that may take the whole rest of its buffer, as the decoder of
compressed records does.

The headers of a record come back as an object (`headers_get?`): a name that carries one value
maps to it, a name that carries more maps to their list. Only a name that every object inherits
comes back with the inherited property in front of its values.

The main result, `RecordBatch.roundTrips_iff`, says when a batch reads back unchanged: no header
value is null, no header has an inherited name, and the batch takes less than `2 ^ 30` bytes.
-/

namespace KafkaJs.Protocol

open KafkaJs.Data

/-! ## Readers that take the rest of the buffer -/

/-- The reader finds `value` in a buffer that ends with `bytes`. -/
def Yields {α : Type} (reader : Reader α) (bytes : Bytes) (value : α) : Prop :=
  ∀ before : Bytes, ∃ decoder, reader ⟨before ++ bytes, before.length⟩ = .ok (value, decoder)

section Yields

variable {α β : Type} {reader : Reader α} {bytes head tail : Bytes} {value : α} {result : β}

/-- A reader that reads bytes finds the value in a buffer that ends with them. -/
theorem Reads.yields (h : Reads reader bytes value) : Yields reader bytes value := by
  intro before
  have hread := h before []
  rw [List.append_nil] at hread
  exact ⟨_, hread⟩

/-- An exact read, then one that takes the rest. -/
theorem Reads.bind_yields {next : α → Reader β} (hfirst : Reads reader head value)
    (hsecond : Yields (next value) tail result) : Yields (reader >>= next) (head ++ tail) result := by
  intro before
  obtain ⟨decoder, hrest⟩ := hsecond (before ++ head)
  have hstart := hfirst before tail
  simp only [List.append_assoc, List.length_append, Nat.cast_add] at hstart hrest
  refine ⟨decoder, ?_⟩
  show (reader _ >>= fun pair => next pair.1 pair.2) = _
  rw [hstart]
  exact hrest

/-- A decoder of its own does not touch the one outside. -/
theorem Yields.runOn_eq (h : Yields reader bytes value) :
    runOn reader (Decoder.new bytes) = Pure.pure value := by
  obtain ⟨decoder, hread⟩ := h []
  have hnew : reader (Decoder.new bytes) = .ok (value, decoder) := hread
  rw [runOn, hnew]

/-- A read of the rest, then a computation that reads no more. -/
theorem Yields.bind_pure {next : α → Reader β} (h : Yields reader bytes value)
    (hnext : next value = Pure.pure result) : Yields (reader >>= next) bytes result := by
  intro before
  obtain ⟨decoder, hread⟩ := h before
  refine ⟨decoder, ?_⟩
  show (reader _ >>= fun pair => next pair.1 pair.2) = _
  rw [hread]
  show next value decoder = _
  rw [hnext]
  rfl

/-- All remaining bytes are read. -/
theorem yields_readAll (bytes : Bytes) : Yields Decoder.readAll bytes bytes := by
  intro before
  have hslice := @slice_append before [] bytes
  rw [List.append_nil] at hslice
  refine ⟨⟨before ++ bytes, before.length + (before ++ bytes).length⟩, ?_⟩
  rw [Decoder.readAll]
  dsimp only
  rw [List.length_append, Nat.cast_add, hslice]

end Yields

/-! ## Headers -/

/-- The decoded form of a header. -/
def Header.decoded (header : Header) : Text × Option Bytes :=
  (header.key.toWellFormed, header.value.map Payload.bytes)

/-- The sizes of a header that must fit a 32-bit length. -/
theorem reads_readHeader {header : Header} (h : header.bytes.length < 2 ^ 31) :
    Reads readHeader header.bytes header.decoded := by
  rw [Header.bytes, List.length_append] at h
  have hkey : header.key.toUtf8.length ≤ (lengthPrefixed (some header.key.toUtf8)).length := by
    simp [lengthPrefixed]
  refine (reads_readVarIntString (by omega)).bind ?_
  rw [← List.append_nil (lengthPrefixed (header.value.map Payload.bytes))]
  refine (reads_readVarIntBytes ?_).bind (Reads.pure _)
  intro bytes hbytes
  rw [hbytes] at h
  simp only [lengthPrefixed, List.length_append] at h
  omega

/-- The properties of a headers object in which `values` are stored under one name. -/
def presented (values : List (Option Bytes)) : Option HeaderEntry :=
  match values with
  | [] => none
  | [value] => some (.single (.value value))
  | values => some (.many (values.map .value))

/-- What the decoder stores under a name that carries `values`: for an inherited name the
inherited property comes first. -/
def stored (name : Text) (values : List (Option Bytes)) : Option HeaderEntry :=
  if IsInherited name ∧ values ≠ [] then
    some (.many (.inherited name :: values.map .value))
  else presented values

/-- The values that a list of decoded headers has under a name. -/
def valuesUnder (headers : List (Text × Option Bytes)) (name : Text) : List (Option Bytes) :=
  (headers.filter fun header => header.1 = name).map Prod.snd

/-- Adding a value under a name. -/
theorem addHeader_self {obj : InsertionMap Text HeaderEntry} {name : Text}
    {values : List (Option Bytes)} (h : obj.get? name = stored name values)
    (value : Option Bytes) :
    (addHeader obj (name, value)).get? name = stored name (values ++ [value]) := by
  -- an inherited name is found before the first value is stored, so its values become an array
  by_cases hinherited : IsInherited name
  · cases values with
    | nil =>
        have hprop : property obj name = some (.single (.inherited name)) := by
          simp [property, h, stored, presented, hinherited]
        simp [addHeader, hprop, stored, hinherited]
    | cons first rest =>
        have hprop : property obj name =
            some (.many (.inherited name :: (first :: rest).map .value)) := by
          simp [property, h, stored, hinherited]
        simp [addHeader, hprop, stored, hinherited]
  · cases values with
    | nil =>
        have hprop : property obj name = none := by
          simp [property, h, stored, presented, hinherited]
        simp [addHeader, hprop, stored, presented, hinherited]
    | cons first others =>
        cases others with
        | nil =>
            have hprop : property obj name = some (.single (.value first)) := by
              simp [property, h, stored, presented, hinherited]
            simp [addHeader, hprop, stored, presented, hinherited]
        | cons second rest =>
            have hprop : property obj name =
                some (.many ((first :: second :: rest).map .value)) := by
              simp [property, h, stored, presented, hinherited]
            simp [addHeader, hprop, stored, presented, hinherited]

/-- Adding a value under another name. -/
theorem addHeader_of_ne (obj : InsertionMap Text HeaderEntry) {name other : Text}
    (h : other ≠ name) (value : Option Bytes) :
    (addHeader obj (name, value)).get? other = obj.get? other := by
  simp only [addHeader]
  split <;> exact InsertionMap.get?_set_of_ne _ _ h

/-- The headers object of a record, name by name. -/
theorem headers_get? (headers : List (Text × Option Bytes)) (name : Text) :
    (headers.foldl addHeader .empty).get? name = stored name (valuesUnder headers name) := by
  -- the last header first: it meets the object that the headers before it have built
  induction headers using List.reverseRecOn with
  | nil => simp [valuesUnder, stored, presented]
  | append_singleton headers header ih =>
      obtain ⟨key, value⟩ := header
      rw [List.foldl_append]
      show (addHeader _ (key, value)).get? name = _
      by_cases hkey : key = name
      · subst hkey
        rw [addHeader_self ih]
        simp [valuesUnder]
      · rw [addHeader_of_ne _ (Ne.symm hkey), ih]
        simp [valuesUnder, hkey]

/-! ## Records -/

/-- The context that the decoder gives to the records of a batch. -/
def RecordBatch.context {ρ : Type} (batch : RecordBatch ρ) : BatchContext :=
  { firstOffset := batch.firstOffset
    firstTimestamp := batch.firstTimestamp
    partitionLeaderEpoch := batch.partitionLeaderEpoch
    inTransaction := batch.transactional
    isControlBatch := false
    lastOffsetDelta := batch.lastOffsetDelta
    producerId := batch.producerId
    producerEpoch := batch.producerEpoch
    firstSequence := batch.firstSequence
    maxTimestamp := batch.maxTimestamp
    timestampType := .createTime }

/-- The decoded form of a record. -/
def Record.decoded {ρ : Type} (batch : RecordBatch ρ) (record : Record) : DecodedRecord :=
  { magicByte := 2
    attributes := 0
    timestamp := batch.firstTimestamp + record.timestampDelta
    offset := batch.firstOffset + record.offsetDelta
    key := record.key.map Payload.bytes
    value := record.value.map Payload.bytes
    headers := (record.headersArray.map Header.decoded).foldl addHeader .empty
    isControlRecord := false }

/-- Bytes are no longer than with their length in front. -/
theorem length_le_lengthPrefixed {value : Option Bytes} {bytes : Bytes} (h : bytes ∈ value) :
    bytes.length ≤ (lengthPrefixed value).length := by
  rw [Option.mem_def] at h
  subst h
  simp [lengthPrefixed]

/-- A header is no longer than all headers. -/
theorem length_header_le {headers : List Header} {header : Header} (h : header ∈ headers) :
    header.bytes.length ≤ (headersBytes headers).length := by
  have hsub := @length_le_flatMap_of_mem _ _ Header.bytes _ h
  rw [headersBytes, List.length_append, ← List.flatMap_def]
  omega

/-- There are no more headers than bytes of headers. -/
theorem length_headers_le (headers : List Header) :
    headers.length ≤ (headersBytes headers).length := by
  have hle : headers.length ≤ (headers.flatMap Header.bytes).length :=
    length_le_flatMap fun _ _ => List.length_pos_iff.mpr
      (List.append_ne_nil_of_left_ne_nil (lengthPrefixed_ne_nil _) _)
  rw [headersBytes, List.length_append, ← List.flatMap_def]
  omega

/-- The headers of a record read back. -/
theorem reads_headers {headers : List Header} (h : (headersBytes headers).length < 2 ^ 31) :
    Reads (Decoder.readVarIntArray readHeader) (headersBytes headers)
      (headers.map Header.decoded) := by
  have hcount := length_headers_le headers
  refine (reads_readVarInt (by omega) (by omega)).bind ?_
  rw [← List.flatMap_def]
  refine reads_readElements fun header hmem => reads_readHeader ?_
  have hle := length_header_le hmem
  omega

/-- A record as it stands in a batch: any sequence of headers. -/
structure WireRecord where
  attributes : Int := 0
  timestampDelta : Int
  offsetDelta : Int
  key : Option Bytes
  value : Option Bytes
  headers : List Header

namespace WireRecord

/-- The bytes of the record after its length. -/
def body (record : WireRecord) : Bytes :=
  intBytes 1 record.attributes ++ (varLongBytes record.timestampDelta ++
    (varIntBytes record.offsetDelta ++ (lengthPrefixed record.key ++
      (lengthPrefixed record.value ++ headersBytes record.headers))))

/-- The fields fit, and so does the length of the record. -/
structure InRange (record : WireRecord) : Prop where
  attributes : FitsInt 1 record.attributes
  timestampDelta : FitsInt 8 record.timestampDelta
  offsetDelta : FitsInt 4 record.offsetDelta
  length : record.body.length < 2 ^ 31

/-- The decoded form of the record. -/
def decoded (context : BatchContext) (magicByte : Int) (record : WireRecord) : DecodedRecord :=
  { magicByte
    attributes := record.attributes
    timestamp := if context.timestampType = .logAppendTime then context.maxTimestamp
      else context.firstTimestamp + record.timestampDelta
    offset := context.firstOffset + record.offsetDelta
    key := record.key
    value := record.value
    headers := (record.headers.map Header.decoded).foldl addHeader .empty
    isControlRecord := context.isControlBatch }

variable {record : WireRecord}

/-- The body of a record reads back, whatever the batch says. -/
theorem InRange.reads (h : record.InRange) (context : BatchContext) (magicByte : Int) :
    Reads (readRecord context magicByte) record.body (record.decoded context magicByte) := by
  have hlength := h.length
  have htimestamp := h.timestampDelta
  have hoffset := h.offsetDelta
  simp only [body, List.length_append] at hlength
  refine (reads_readInt h.attributes.1 h.attributes.2).bind ?_
  refine (reads_readVarLong (by have := htimestamp.1; omega) (by have := htimestamp.2; omega)).bind ?_
  refine (reads_readVarInt (by have := hoffset.1; omega) (by have := hoffset.2; omega)).bind ?_
  refine (reads_readVarIntBytes fun bytes hbytes => ?_).bind ?_
  · have hle := length_le_lengthPrefixed hbytes
    omega
  refine (reads_readVarIntBytes fun bytes hbytes => ?_).bind ?_
  · have hle := length_le_lengthPrefixed hbytes
    omega
  have hheaders : (headersBytes record.headers).length < 2 ^ 31 := by omega
  rw [← List.append_nil (headersBytes record.headers)]
  exact (reads_headers hheaders).bind (Reads.pure (record.decoded context magicByte))

/-- A record behind its length reads back. -/
theorem InRange.reads_lengthPrefixed (h : record.InRange) (context : BatchContext) (magicByte : Int) :
    Reads (decodeRecord context magicByte) (lengthPrefixed (some record.body))
      (record.decoded context magicByte) := by
  rw [← List.append_nil (lengthPrefixed (some record.body))]
  refine (reads_readVarIntBytes fun bytes hbytes => ?_).bind ?_
  · cases hbytes
    exact h.length
  · dsimp only
    rw [(h.reads context magicByte).yields.runOn_eq]
    exact Reads.pure (record.decoded context magicByte)

end WireRecord

variable {batch : RecordBatch Record} {record : Record} {codecs : Codecs}

/-- What an encoded record has in the batch. -/
def Record.wire (record : Record) : WireRecord :=
  { timestampDelta := record.timestampDelta
    offsetDelta := record.offsetDelta
    key := record.key.map Payload.bytes
    value := record.value.map Payload.bytes
    headers := record.headersArray }

/-- A record with deltas that fit is in the range of its fields. -/
theorem Record.wire_inRange (hoffset : FitsInt 4 record.offsetDelta)
    (htimestamp : FitsInt 8 record.timestampDelta) (hlength : record.bytes.length < 2 ^ 31) :
    record.wire.InRange where
  attributes := show FitsInt 1 0 by decide
  timestampDelta := htimestamp
  offsetDelta := hoffset
  length := (length_le_lengthPrefixed (@rfl _ (some record.body))).trans_lt hlength

/-- A record reads back. -/
theorem reads_decodeRecord (hoffset : FitsInt 4 record.offsetDelta)
    (htimestamp : FitsInt 8 record.timestampDelta) (hlength : record.bytes.length < 2 ^ 31) :
    Reads (decodeRecord batch.context 2) record.bytes (record.decoded batch) :=
  (Record.wire_inRange hoffset htimestamp hlength).reads_lengthPrefixed batch.context 2

/-! ## Batches -/

/-- The codec is looked up by the compression of the batch. -/
theorem lookupCodecByAttributes_eq (batch : RecordBatch Record) :
    lookupCodecByAttributes codecs batch.attributes =
      match batch.compression with
      | none => .ok none
      | some type => some <$> codecs type := by
  rw [RecordBatch.attributes]
  rcases batch.compression with _ | _ | _ | _ | _ <;> cases batch.transactional <;> rfl

/-- The flags of a batch read back. -/
theorem attributes_flags (batch : RecordBatch Record) :
    decide ((batch.attributes : Int) / 16 % 2 = 1) = batch.transactional ∧
    decide ((batch.attributes : Int) / 32 % 2 = 1) = false ∧
    ¬ (batch.attributes : Int) / 8 % 2 = 1 := by
  rw [RecordBatch.attributes]
  rcases batch.compression with _ | _ | _ | _ | _ <;> cases batch.transactional <;> decide

/-- The plain records read back. -/
theorem reads_plainRecords (hrange : batch.InRange)
    (hlength : batch.recordsBytes.length < 2 ^ 31) :
    Reads (Decoder.readMany (decodeRecord batch.context 2) batch.records.length)
      batch.recordsBytes (batch.records.map (Record.decoded batch)) := by
  rw [RecordBatch.recordsBytes, ← List.flatMap_def]
  refine reads_readMany fun record hmem => ?_
  obtain ⟨hoffset, htimestamp⟩ := hrange.records record hmem
  have hsub := @length_le_flatMap_of_mem _ _ Record.bytes _ hmem
  rw [RecordBatch.recordsBytes, ← List.flatMap_def] at hlength
  exact reads_decodeRecord hoffset htimestamp (by omega)

/-- The records read back, in the form in which the batch carries them. -/
theorem yields_decodeRecords (hcodec : batch.HasCodec codecs) (hrange : batch.InRange)
    (hlength : batch.recordsBytes.length < 2 ^ 31) {codec : Option Codec}
    (hlookup : lookupCodecByAttributes codecs batch.attributes = .ok codec) :
    Yields (decodeRecords codec batch.context 2)
      (intBytes 4 batch.records.length ++ batch.carriedRecords codecs)
      (batch.records.map (Record.decoded batch)) := by
  have hcount := @RecordBatch.length_records_le batch
  have hnumber := @reads_readInt 4 batch.records.length (by omega) (by omega)
  rw [lookupCodecByAttributes_eq] at hlookup
  rcases Option.eq_none_or_eq_some batch.compression with hnone | ⟨type, hsome⟩
  · rw [hnone] at hlookup
    cases hlookup
    have hcarried : batch.carriedRecords codecs = batch.recordsBytes := by
      rw [RecordBatch.carriedRecords, hnone]
    rw [hcarried]
    refine Reads.yields (hnumber.bind ?_)
    rw [Decoder.readElements, if_neg (by omega), if_neg (by omega), Int.toNat_natCast]
    exact reads_plainRecords hrange hlength
  · obtain ⟨codec', hcodecs, hlossless⟩ := hcodec type hsome
    obtain ⟨compressed, hcompress, hdecompress⟩ := hlossless batch.recordsBytes
    have hcarried : batch.carriedRecords codecs = compressed := by
      rw [RecordBatch.carriedRecords, hsome]
      simp only [hcodecs, ok_bind, hcompress]
    simp only [hsome, hcodecs] at hlookup
    cases hlookup
    rw [hcarried]
    refine hnumber.bind_yields ?_
    split
    -- without records nothing is read, and nothing is decompressed
    · next hempty =>
        have hnil : batch.records = [] := List.eq_nil_of_length_eq_zero (by omega)
        intro before
        exact ⟨_, by rw [hnil]; rfl⟩
    · refine (yields_readAll compressed).bind_pure ?_
      rw [hdecompress, Int.toNat_natCast]
      exact (reads_plainRecords hrange hlength).yields.runOn_eq

/-- What the length of a batch covers reads back. -/
theorem yields_readBatch (hcodec : batch.HasCodec codecs) (hrange : batch.InRange)
    (hlength : batch.recordsBytes.length < 2 ^ 31) :
    Yields (readBatch codecs batch.firstOffset) (batch.innerBytes codecs)
      (batch.context, batch.records.map (Record.decoded batch)) := by
  have hattributes := RecordBatch.attributes_lt batch
  obtain ⟨codec, hlookup⟩ : ∃ codec, lookupCodecByAttributes codecs batch.attributes = .ok codec := by
    rw [lookupCodecByAttributes_eq]
    rcases Option.eq_none_or_eq_some batch.compression with hnone | ⟨type, hsome⟩
    · exact ⟨none, by rw [hnone]⟩
    · obtain ⟨codec, hcodecs, _⟩ := hcodec type hsome
      exact ⟨some codec, by simp only [hsome, hcodecs]; rfl⟩
  have hint64 : ∀ {value : Int}, FitsInt 8 value → Reads Decoder.readInt64 (int64Bytes value) value :=
    fun h => reads_readInt64 (by have := h.1; omega) (by have := h.2; omega)
  obtain ⟨htransactional, hcontrol, htimestamp⟩ := attributes_flags batch
  refine (reads_readInt hrange.partitionLeaderEpoch.1 hrange.partitionLeaderEpoch.2).bind_yields ?_
  refine (@reads_readInt 1 2 (by decide) (by decide)).bind_yields ?_
  refine (reads_readInt32_bigEndian (crc32C_lt _)).bind_yields ?_
  refine (@reads_readInt 2 batch.attributes (by omega) (by omega)).bind_yields ?_
  refine (reads_readInt hrange.lastOffsetDelta.1 hrange.lastOffsetDelta.2).bind_yields ?_
  refine (hint64 hrange.firstTimestamp).bind_yields ?_
  refine (hint64 hrange.maxTimestamp).bind_yields ?_
  refine (hint64 hrange.producerId).bind_yields ?_
  refine (reads_readInt hrange.producerEpoch.1 hrange.producerEpoch.2).bind_yields ?_
  refine (reads_readInt hrange.firstSequence.1 hrange.firstSequence.2).bind_yields ?_
  rw [hlookup, liftM_ok_bind]
  simp only [htransactional, hcontrol, if_neg htimestamp]
  refine (yields_decodeRecords hcodec hrange hlength hlookup).bind_pure ?_
  rfl

/-- The decoder on a batch that is there as a whole: what the length covers is decoded on its own.
-/
theorem reads_framed {firstOffset : Int} {content : Bytes}
    {result : BatchContext × List DecodedRecord} (hoffset : FitsInt 8 firstOffset)
    (hlength : content.length < 2 ^ 31)
    (hcontent : runOn (readBatch codecs firstOffset) (Decoder.new content) = Pure.pure result) :
    Reads (decodeRecordBatch codecs)
      (int64Bytes firstOffset ++ (intBytes 4 content.length ++ content)) result := by
  obtain ⟨hlower, hupper⟩ := hoffset
  refine (reads_readInt64 (by omega) (by omega)).bind ?_
  refine (@reads_readInt 4 content.length (by omega) (by omega)).bind ?_
  intro before after
  have hslice : Decoder.slice content.length ⟨before ++ (content ++ after), before.length⟩ =
      Decoder.new content := by
    rw [Decoder.slice, slice_append]
  show (if ((Decoder.slice content.length ⟨before ++ (content ++ after), before.length⟩).buffer.length
      : Int) < content.length then _ else _ : Reader _) _ = _
  rw [hslice, if_neg (by simp [Decoder.new])]
  show runOn (readBatch codecs firstOffset) (Decoder.new content) _ = _
  rw [hcontent]
  rfl

/-- A batch reads back, wherever it stands and whatever follows. -/
theorem reads_decodeRecordBatch (hcodec : batch.HasCodec codecs) (hrange : batch.InRange)
    (hrecords : batch.recordsBytes.length < 2 ^ 31)
    (hlength : (batch.bytes codecs).length < 2 ^ 31) :
    Reads (decodeRecordBatch codecs) (batch.bytes codecs)
      (batch.context, batch.records.map (Record.decoded batch)) := by
  have htotal := @RecordBatch.length_bytes codecs batch
  exact reads_framed hrange.firstOffset (by omega)
    (yields_readBatch hcodec hrange hrecords).runOn_eq

/-! ## The round trip -/

/-- The values that a record has under a name, in order and as bytes. -/
def Record.valuesUnder (record : Record) (name : Text) : List (Option Bytes) :=
  Protocol.valuesUnder (record.headersArray.map Header.decoded) name

/-- The decoded record carries the data of the record. Under each name stand the values of that
name; a list of one value has the same bytes as the value alone and is presented as such. -/
structure Record.Matches {ρ : Type} (batch : RecordBatch ρ) (record : Record)
    (decoded : DecodedRecord) : Prop where
  magicByte : decoded.magicByte = 2
  attributes : decoded.attributes = 0
  timestamp : decoded.timestamp = batch.firstTimestamp + record.timestampDelta
  offset : decoded.offset = batch.firstOffset + record.offsetDelta
  key : decoded.key = record.key.map Payload.bytes
  value : decoded.value = record.value.map Payload.bytes
  headers : ∀ name, decoded.headers.get? name = presented (record.valuesUnder name)
  isControlRecord : decoded.isControlRecord = false

/-- No header of the record has the name of a property that every object inherits. -/
def Record.NoInheritedHeader (record : Record) : Prop :=
  ∀ header ∈ record.headersArray, ¬ IsInherited header.key.toWellFormed

/-- `NoInheritedHeader` is decidable header by header. -/
instance (record : Record) : Decidable record.NoInheritedHeader :=
  inferInstanceAs (Decidable (∀ header ∈ record.headersArray, _))

/-- A name has no values if no header has it. -/
theorem Record.valuesUnder_eq_nil {name : Text} :
    record.valuesUnder name = [] ↔
      ∀ header ∈ record.headersArray, header.key.toWellFormed ≠ name := by
  simp [Record.valuesUnder, Protocol.valuesUnder, Header.decoded]

/-- The decoded form of a record matches it unless a header has an inherited name. -/
theorem Record.matches_decoded_iff :
    record.Matches batch (record.decoded batch) ↔ record.NoInheritedHeader := by
  have hget : ∀ name, (record.decoded batch).headers.get? name =
      stored name (record.valuesUnder name) := headers_get? _
  constructor
  · intro h header hmem hinherited
    have hvalues : record.valuesUnder header.key.toWellFormed ≠ [] := fun hnil =>
      Record.valuesUnder_eq_nil.mp hnil header hmem rfl
    have hstored := (hget header.key.toWellFormed).symm.trans (h.headers _)
    rw [stored, if_pos ⟨hinherited, hvalues⟩] at hstored
    -- the inherited property stands in front of the values
    generalize record.valuesUnder header.key.toWellFormed = values at hstored hvalues
    match values with
    | [] => exact hvalues rfl
    | [_] => simp [presented] at hstored
    | _ :: _ :: _ => simp [presented] at hstored
  · intro h
    refine ⟨rfl, rfl, rfl, rfl, rfl, rfl, fun name => ?_, rfl⟩
    rw [hget, stored]
    split
    · next hname =>
        obtain ⟨hinherited, hvalues⟩ := hname
        refine absurd (Record.valuesUnder_eq_nil.mpr fun header hmem hkey => ?_) hvalues
        exact h header hmem (hkey ▸ hinherited)
    · rfl

namespace RecordBatch

/-- No header of the batch has an inherited name. -/
def NoInheritedHeader (batch : RecordBatch Record) : Prop :=
  ∀ record ∈ batch.records, record.NoInheritedHeader

/-- `NoInheritedHeader` is decidable record by record. -/
instance (batch : RecordBatch Record) : Decidable batch.NoInheritedHeader :=
  inferInstanceAs (Decidable (∀ record ∈ batch.records, _))

/-- The batch is encoded, and the decoder recovers it from the encoded bytes, wherever they stand
and whatever follows, and stops behind them. -/
def RoundTrips (codecs : Codecs) (batch : RecordBatch Record) : Prop :=
  ∃ encoder, batch.encode codecs = .ok encoder ∧
    ∃ records, Reads (decodeRecordBatch codecs) encoder.buffer (batch.context, records) ∧
      List.Forall₂ (Record.Matches batch) batch.records records

/-- All records match what is decoded exactly if no header has an inherited name. -/
theorem matches_records_iff :
    List.Forall₂ (Record.Matches batch) batch.records (batch.records.map (Record.decoded batch)) ↔
      batch.NoInheritedHeader := by
  rw [List.forall₂_map_right_iff, List.forall₂_same]
  exact forall₂_congr fun _ _ => Record.matches_decoded_iff

/-- What a reader recovers from given bytes is determined. -/
theorem reads_unique {α : Type} {reader : Reader α} {bytes : Bytes} {first second : α}
    (hfirst : Reads reader bytes first) (hsecond : Reads reader bytes second) : first = second := by
  have h := (hfirst [] []).symm.trans (hsecond [] [])
  simpa using h

/-- A batch in range that has no null header value and no header with an inherited name, and that
fits an encoder, goes through encoder and decoder unchanged. Below `2 ^ 31` bytes no other batch
does, up to the one size at which the plain form of compressed records fills a buffer of `2 ^ 30`
bytes exactly. -/
theorem roundTrips_iff (hcodec : batch.HasCodec codecs) (hrange : batch.InRange) :
    (batch.NoNullHeader ∧ batch.NoInheritedHeader ∧ batch.Fits codecs →
      batch.RoundTrips codecs) ∧
    (batch.recordsBytes.length < 2 ^ 31 → (batch.bytes codecs).length < 2 ^ 31 →
      batch.RoundTrips codecs →
        batch.NoNullHeader ∧ batch.NoInheritedHeader ∧ (batch.bytes codecs).length < 2 ^ 30 ∧
          (batch.compression ≠ none → batch.recordsBytes.length ≤ 2 ^ 30)) := by
  constructor
  · rintro ⟨hnull, hinherited, hfits⟩
    have hrecords : batch.recordsBytes.length < 2 ^ 31 := by
      have htotal := hfits.1
      by_cases hcompression : batch.compression = none
      · have hle := @recordsBytes_le_of_plain codecs batch hcompression
        omega
      · have hlt := hfits.2 hcompression
        omega
    have hlength : (batch.bytes codecs).length < 2 ^ 31 := by
      have htotal := hfits.1
      omega
    obtain ⟨encoder, hencode, hholds⟩ := encode_ok hcodec hrange hnull hfits
    refine ⟨encoder, hencode, batch.records.map (Record.decoded batch), ?_,
      matches_records_iff.mpr hinherited⟩
    rw [hholds.buffer_eq]
    exact reads_decodeRecordBatch hcodec hrange hrecords hlength
  · rintro hrecords hlength ⟨encoder, hencode, records, hreads, hmatches⟩
    obtain ⟨hholds, hsize, hplain⟩ := encode_holds hcodec hrange hrecords hlength hencode
    rw [hholds.buffer_eq] at hreads
    -- what the decoder returns is determined by the bytes, so the records are the decoded ones
    have hread := reads_unique hreads (reads_decodeRecordBatch hcodec hrange hrecords hlength)
    rw [Prod.mk.injEq] at hread
    rw [hread.2] at hmatches
    exact ⟨noNullHeader_of_encode hencode, matches_records_iff.mp hmatches, hsize, hplain⟩

/-- The table of codecs of a library that has none installed. -/
def noCodecs : Codecs := fun _ =>
  .error { name := .kafkaJSNotImplemented, message := "codec not implemented",
           retriable := some false }

/-- A batch with one record whose headers have one value, two values and none. -/
def sample (trace : HeaderValue) : RecordBatch Record :=
  { firstTimestamp := 1500000000000
    maxTimestamp := 1500000000000
    producerId := 7
    transactional := true
    records :=
      [{ offsetDelta := -1
         key := none
         value := some (.string (Text.ofString "v"))
         headers := ((InsertionMap.empty.set (Text.ofString "trace") trace).set
           (Text.ofString "hop") (.list [some (.buffer [1]), some (.buffer [])])).set
           (Text.ofString "none") (.list []) }] }

/-- The sample batch is in the range of its fields. -/
theorem sample_inRange (trace : HeaderValue) : (sample trace).InRange where
  firstOffset := show FitsInt 8 0 by decide
  firstTimestamp := show FitsInt 8 1500000000000 by decide
  maxTimestamp := show FitsInt 8 1500000000000 by decide
  partitionLeaderEpoch := show FitsInt 4 0 by decide
  lastOffsetDelta := show FitsInt 4 0 by decide
  producerId := show FitsInt 8 7 by decide
  producerEpoch := show FitsInt 2 0 by decide
  firstSequence := show FitsInt 4 0 by decide
  records := by
    intro record hmem
    rw [List.mem_singleton.mp hmem]
    show FitsInt 4 (-1) ∧ FitsInt 8 0
    decide

/-- The sample batch is not compressed. -/
theorem sample_hasCodec (trace : HeaderValue) : (sample trace).HasCodec noCodecs := by
  intro type htype
  cases htype

/-- The sample batch makes the round trip. -/
theorem roundTrips_sample : (sample (.single (some (.buffer [3])))).RoundTrips noCodecs :=
  (roundTrips_iff (sample_hasCodec _) (sample_inRange _)).1 (by
    refine ⟨by decide, by decide, ?_, fun h => absurd rfl h⟩
    decide)

/-- A header value null makes the encoder throw. -/
theorem not_roundTrips_nullHeader :
    (sample (.single none)).InRange ∧ (sample (.single none)).HasCodec noCodecs ∧
      ¬ (sample (.single none)).RoundTrips noCodecs := by
  refine ⟨sample_inRange _, sample_hasCodec _, ?_⟩
  rintro ⟨encoder, hencode, _⟩
  have hnull := noNullHeader_of_encode hencode
  revert hnull
  decide

end RecordBatch

end KafkaJs.Protocol
