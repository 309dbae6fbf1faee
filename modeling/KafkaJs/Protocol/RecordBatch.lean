import KafkaJs.Data.InsertionMap
import KafkaJs.Protocol.Crc32C
import KafkaJs.Protocol.Decoder

/-!
# Record batches

The encoder and the decoder of record batches with magic byte 2 (`protocol/recordBatch`). A
record is encoded into an encoder of its own; the batch takes these encoders, writes them after
its fixed fields, plain or compressed, and prefixes the result with its checksum and its length.

The codecs come from a table that applications may extend (`protocol/message/compression`), so
they are a parameter. Offsets, timestamps and producer ids are presented by the decoder as
decimal texts; they are integers here.
-/

namespace KafkaJs.Protocol

open KafkaJs.Data

/-! ## Compression -/

/-- The compression types that have an entry in the table of codecs. -/
inductive CodecType where
  | gzip
  | snappy
  | lz4
  | zstd
  deriving DecidableEq

/-- The number of a compression type; `none` is `Compression.None`. -/
def compressionCode : Option CodecType → Nat
  | none => 0
  | some .gzip => 1
  | some .snappy => 2
  | some .lz4 => 3
  | some .zstd => 4

/-- A codec. -/
structure Codec where
  compress : Bytes → Except KafkaError Bytes
  decompress : Bytes → Except KafkaError Bytes

/-- The table of codecs. An entry that is not implemented throws when it is looked up. -/
abbrev Codecs := CodecType → Except KafkaError Codec

/-- `lookupCodecByAttributes`. -/
def lookupCodecByAttributes (codecs : Codecs) (attributes : Int) :
    Except KafkaError (Option Codec) :=
  match attributes % 8 with
  | 1 => some <$> codecs .gzip
  | 2 => some <$> codecs .snappy
  | 3 => some <$> codecs .lz4
  | 4 => some <$> codecs .zstd
  | _ => pure none

/-! ## Encoding -/

/-- The value of a header: one value or a list of values, each possibly null. -/
inductive HeaderValue where
  | single (value : Option Payload)
  | list (values : List (Option Payload))
  deriving DecidableEq

/-- A record to encode. The headers are listed in the order in which `Object.keys` enumerates
them. -/
structure Record where
  offsetDelta : Int := 0
  timestampDelta : Int := 0
  key : Option Payload
  value : Option Payload
  headers : InsertionMap Text HeaderValue := .empty
  deriving DecidableEq

/-- One header of the encoded record. -/
structure Header where
  key : Text
  value : Option Payload
  deriving DecidableEq

/-- The headers that one entry stands for. -/
def headersOf (entry : Text × HeaderValue) : List Header :=
  match entry.2 with
  | .single value => [⟨entry.1, value⟩]
  | .list values => values.map fun value => ⟨entry.1, value⟩

/-- `headersArray`. -/
def Record.headersArray (record : Record) : List Header := record.headers.entries.flatMap headersOf

/-- `Buffer.byteLength`, which throws on null. -/
def byteLengthOrThrow : Option Payload → Except KafkaError Nat
  | none =>
      .error
        { name := .typeError
          message := "The \"string\" argument must be of type string or an instance of Buffer " ++
            "or ArrayBuffer. Received null"
          retriable := none }
  | some value => .ok (byteLength value)

/-- The loop of `sizeOfHeaders`. The size of the value is taken before the value is compared with
null. -/
def sizeOfHeadersLoop : List Header → Nat → Except KafkaError Nat
  | [], size => pure size
  | header :: headers, size => do
      let keySize := header.key.toUtf8.length
      let valueSize ← byteLengthOrThrow header.value
      let size := size + sizeOfVarInt keySize + keySize
      if header.value = none then sizeOfHeadersLoop headers (size + sizeOfVarInt (-1))
      else sizeOfHeadersLoop headers (size + sizeOfVarInt valueSize + valueSize)

/-- `sizeOfHeaders`. -/
def sizeOfHeaders (headersArray : List Header) : Except KafkaError Nat :=
  sizeOfHeadersLoop headersArray (sizeOfVarInt headersArray.length)

/-- The encoder of one header. -/
def Header.encode (header : Header) : Except KafkaError Encoder := do
  let encoder ← Encoder.new.writeVarIntString header.key
  encoder.writeVarIntBytes header.value

/-- The writes of a record, given the size of its body. -/
def Record.write (record : Record) (sizeOfBody : Nat) : Except KafkaError Encoder := do
  let encoder ← Encoder.new.writeVarInt sizeOfBody
  let encoder ← encoder.writeInt8 0
  let encoder ← encoder.writeVarLong record.timestampDelta
  let encoder ← encoder.writeVarInt record.offsetDelta
  let encoder ← encoder.writeVarIntBytes record.key
  let encoder ← encoder.writeVarIntBytes record.value
  let headers ← record.headersArray.mapM Header.encode
  encoder.writeVarIntArray headers

/-- The encoder of one record. -/
def Record.encode (record : Record) : Except KafkaError Encoder := do
  let headersSize ← sizeOfHeaders record.headersArray
  record.write (1 + sizeOfVarLong record.timestampDelta + sizeOfVarInt record.offsetDelta +
    sizeOfVarIntBytes record.key + sizeOfVarIntBytes record.value + headersSize)

/-- The arguments of `RecordBatch`, over the form in which the records are given. -/
structure RecordBatch (ρ : Type) where
  compression : Option CodecType := none
  firstOffset : Int := 0
  firstTimestamp : Int
  maxTimestamp : Int
  partitionLeaderEpoch : Int := 0
  lastOffsetDelta : Int := 0
  transactional : Bool := false
  producerId : Int := -1
  producerEpoch : Int := 0
  firstSequence : Int := 0
  records : List ρ
  deriving DecidableEq

namespace RecordBatch

/-- `attributes`: the number of the codec and the transactional bit. -/
def attributes {ρ : Type} (batch : RecordBatch ρ) : Nat :=
  compressionCode batch.compression % 8 ||| (if batch.transactional then 16 else 0)

/-- The records of the batch body: their number and their bytes, plain or, by `compressRecords`,
compressed. -/
def writeRecords (codecs : Codecs) (batch : RecordBatch Encoder) (batchBody : Encoder) :
    Except KafkaError Encoder :=
  match batch.compression with
  | none => batchBody.writeArray batch.records
  | some type => do
      let codec ← codecs type
      let recordsEncoder ← Encoder.new.writeEncoderArray batch.records
      let compressedRecords ← codec.compress recordsEncoder.buffer
      let batchBody ← batchBody.writeInt32 batch.records.length
      batchBody.writeBufferInternal compressedRecords

/-- `batchBody`. -/
def body (codecs : Codecs) (batch : RecordBatch Encoder) : Except KafkaError Encoder := do
  let batchBody ← Encoder.new.writeInt16 batch.attributes
  let batchBody ← batchBody.writeInt32 batch.lastOffsetDelta
  let batchBody ← batchBody.writeInt64 batch.firstTimestamp
  let batchBody ← batchBody.writeInt64 batch.maxTimestamp
  let batchBody ← batchBody.writeInt64 batch.producerId
  let batchBody ← batchBody.writeInt16 batch.producerEpoch
  let batchBody ← batchBody.writeInt32 batch.firstSequence
  batch.writeRecords codecs batchBody

/-- `batch`: the body behind the leader epoch, the magic byte and the checksum. -/
def checked {ρ : Type} (batch : RecordBatch ρ) (batchBody : Encoder) :
    Except KafkaError Encoder := do
  let encoder ← Encoder.new.writeInt32 batch.partitionLeaderEpoch
  let encoder ← encoder.writeInt8 2
  let encoder ← encoder.writeUInt32 (crc32C batchBody.buffer)
  encoder.writeEncoder batchBody

/-- The first offset and the batch behind its length. -/
def framed {ρ : Type} (batch : RecordBatch ρ) (content : Encoder) : Except KafkaError Encoder := do
  let encoder ← Encoder.new.writeInt64 batch.firstOffset
  encoder.writeBytes content.buffer

/-- `RecordBatch`. -/
def ofEncoders (codecs : Codecs) (batch : RecordBatch Encoder) : Except KafkaError Encoder := do
  let batchBody ← batch.body codecs
  let content ← batch.checked batchBody
  batch.framed content

/-- A batch encoded from its records: each record first, then the batch. -/
def encode (codecs : Codecs) (batch : RecordBatch Record) : Except KafkaError Encoder := do
  let records ← batch.records.mapM Record.encode
  RecordBatch.ofEncoders codecs { batch with records := records }

end RecordBatch

/-! ## Decoding -/

/-- The timestamp types that the attributes of a batch distinguish. -/
inductive TimestampType where
  | createTime
  | logAppendTime
  deriving DecidableEq

/-- `recordContext`. -/
structure BatchContext where
  firstOffset : Int
  firstTimestamp : Int
  partitionLeaderEpoch : Int
  inTransaction : Bool
  isControlBatch : Bool
  lastOffsetDelta : Int
  producerId : Int
  producerEpoch : Int
  firstSequence : Int
  maxTimestamp : Int
  timestampType : TimestampType
  deriving DecidableEq

/-- A value found in the headers object: a decoded value, or the property of that name that
every object inherits. -/
inductive HeaderItem where
  | value (bytes : Option Bytes)
  | inherited (name : Text)
  deriving DecidableEq

/-- A property of the headers object. -/
inductive HeaderEntry where
  | single (item : HeaderItem)
  | many (items : List HeaderItem)
  deriving DecidableEq

/-- A decoded record. -/
structure DecodedRecord where
  magicByte : Int
  attributes : Int
  timestamp : Int
  offset : Int
  key : Option Bytes
  value : Option Bytes
  headers : InsertionMap Text HeaderEntry
  isControlRecord : Bool
  deriving DecidableEq

/-- Whether every object has a property of this name. -/
def IsInherited (name : Text) : Prop := name ∈ inheritedNames.map Text.ofString

/-- `IsInherited` is decidable by the list of inherited names. -/
instance (name : Text) : Decidable (IsInherited name) :=
  inferInstanceAs (Decidable (_ ∈ _))

/-- `obj[key]`. -/
def property (obj : InsertionMap Text HeaderEntry) (key : Text) : Option HeaderEntry :=
  match obj.get? key with
  | some entry => some entry
  | none => if IsInherited key then some (.single (.inherited key)) else none

/-- The step of the fold over the headers: a first value is stored as it is, a further one makes a
list. -/
def addHeader (obj : InsertionMap Text HeaderEntry) (header : Text × Option Bytes) :
    InsertionMap Text HeaderEntry :=
  let (key, value) := header
  match property obj key with
  | none => obj.set key (.single (.value value))
  | some (.many items) => obj.set key (.many (items ++ [.value value]))
  | some (.single item) => obj.set key (.many [item, .value value])

/-- The decoder of one header. A missing key is the property name `null`. -/
def readHeader : Reader (Text × Option Bytes) := do
  let key ← Decoder.readVarIntString
  let value ← Decoder.readVarIntBytes
  pure (key.getD (Text.ofString "null"), value)

/-- The decoder of the body of one record. -/
def readRecord (context : BatchContext) (magicByte : Int) : Reader DecodedRecord := do
  let attributes ← Decoder.readInt8
  let timestampDelta ← Decoder.readVarLong
  let offsetDelta ← Decoder.readVarInt
  let key ← Decoder.readVarIntBytes
  let value ← Decoder.readVarIntBytes
  let headers ← Decoder.readVarIntArray readHeader
  pure
    { magicByte, attributes
      timestamp := if context.timestampType = .logAppendTime then context.maxTimestamp
        else context.firstTimestamp + timestampDelta
      offset := context.firstOffset + offsetDelta
      key, value
      headers := headers.foldl addHeader .empty
      isControlRecord := context.isControlBatch }

/-- Run a reader on a decoder of its own. -/
def runOn {α : Type} (reader : Reader α) (decoder : Decoder) : Reader α :=
  match reader decoder with
  | .ok (value, _) => pure value
  | .error error => throw error

/-- `decodeRecord`. Reading from a missing buffer is an error of the language. -/
def decodeRecord (context : BatchContext) (magicByte : Int) : Reader DecodedRecord := do
  let recordBuffer ← Decoder.readVarIntBytes
  match recordBuffer with
  | none =>
      throw { name := .typeError
              message := "Cannot read properties of null (reading 'readInt8')"
              retriable := none }
  | some buffer => runOn (readRecord context magicByte) (Decoder.new buffer)

/-- `decodeRecords`. -/
def decodeRecords (codec : Option Codec) (context : BatchContext) (magicByte : Int) :
    Reader (List DecodedRecord) :=
  match codec with
  | none => Decoder.readArray (decodeRecord context magicByte)
  | some codec => do
      let length ← Decoder.readInt32
      if length ≤ 0 then pure []
      else
        let compressedRecordsBuffer ← Decoder.readAll
        let decompressedRecordBuffer ← codec.decompress compressedRecordsBuffer
        runOn (Decoder.readMany (decodeRecord context magicByte) length.toNat)
          (Decoder.new decompressedRecordBuffer)

/-- The decoder of what the length of a batch covers. -/
def readBatch (codecs : Codecs) (firstOffset : Int) :
    Reader (BatchContext × List DecodedRecord) := do
  let partitionLeaderEpoch ← Decoder.readInt32
  let magicByte ← Decoder.readInt8
  let _crc ← Decoder.readInt32
  let attributes ← Decoder.readInt16
  let lastOffsetDelta ← Decoder.readInt32
  let firstTimestamp ← Decoder.readInt64
  let maxTimestamp ← Decoder.readInt64
  let producerId ← Decoder.readInt64
  let producerEpoch ← Decoder.readInt16
  let firstSequence ← Decoder.readInt32
  let codec ← lookupCodecByAttributes codecs attributes
  let context : BatchContext :=
    { firstOffset, firstTimestamp, partitionLeaderEpoch
      -- the masks 0x10, 0x20 and 0x8
      inTransaction := attributes / 16 % 2 = 1
      isControlBatch := attributes / 32 % 2 = 1
      lastOffsetDelta, producerId, producerEpoch, firstSequence, maxTimestamp
      timestampType := if attributes / 8 % 2 = 1 then .logAppendTime else .createTime }
  let records ← decodeRecords codec context magicByte
  pure (context, records)

/-- The decoder of a record batch. -/
def decodeRecordBatch (codecs : Codecs) : Reader (BatchContext × List DecodedRecord) := do
  let firstOffset ← Decoder.readInt64
  let length ← Decoder.readInt32
  let decoder := (← get).slice length
  Decoder.forward length
  if (decoder.buffer.length : Int) < length then
    throw { name := .kafkaJSPartialMessageError
            message := "Tried to decode a partial record batch: remainingBytes(" ++
              toString decoder.buffer.length ++ ") < recordBatchLength(" ++ toString length ++ ")"
            retriable := some false }
  runOn (readBatch codecs firstOffset) decoder

end KafkaJs.Protocol
