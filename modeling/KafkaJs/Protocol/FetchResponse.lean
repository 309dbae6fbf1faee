import KafkaJs.Protocol.FetchMessages
import KafkaJs.Protocol.LoopReaders
import KafkaJs.Protocol.TaggedFields

/-!
# Fetch responses

The decoders of the fetch responses from version 4 to version 12. The versions differ in a few
fields of the header of a partition and of the whole response, and version 12 has compact lengths
and tag buffers. A broker writes a response (`WireResponse.bytes`) and cuts the record fields of its
partitions where they get too long. It writes no tagged fields: all tag buffers of version 12 are
empty. `decode_bytes` says what the decoder makes of these bytes: all fields, and for each partition
the messages of the batches that are whole. If one of the record fields ends before its magic byte,
or has a whole batch with more records than a call takes arguments, the decoder throws, and nothing
of the response is left.
-/

namespace KafkaJs.Protocol.Fetch

open KafkaJs.Data

/-! ## Decoding -/

/-- The versions that have a decoder of their own. Version 6 uses that of version 5, and the
versions 9 and 10 that of version 8. -/
inductive Version where
  | v4
  | v5
  | v7
  | v8
  | v11
  | v12
  deriving DecidableEq

/-- Whether partitions have a `lastStartOffset`. -/
def Version.hasStartOffset : Version → Bool
  | .v4 => false
  | _ => true

/-- Whether partitions have a `preferredReadReplica`. -/
def Version.hasReadReplica : Version → Bool
  | .v11 | .v12 => true
  | _ => false

/-- Whether the response has an `errorCode` and a `sessionId`. -/
def Version.hasSession : Version → Bool
  | .v4 | .v5 => false
  | _ => true

/-- Whether the throttle time is left to the client. -/
def Version.throttlesClient : Version → Bool
  | .v8 | .v11 | .v12 => true
  | _ => false

/-- Whether lengths are compact and tag buffers stand behind the parts of the response. -/
def Version.isFlexible : Version → Bool
  | .v12 => true
  | _ => false

/-- An aborted transaction in a response. -/
structure AbortedTransaction where
  producerId : Int
  firstOffset : Int
  deriving DecidableEq

/-- The fields of a partition besides the messages. -/
structure PartitionHeader where
  partition : Int
  errorCode : Int
  highWatermark : Int
  lastStableOffset : Int
  lastStartOffset : Option Int
  abortedTransactions : Option (List AbortedTransaction)
  preferredReadReplica : Option Int
  deriving DecidableEq

/-- A partition of a response. -/
structure PartitionData extends PartitionHeader where
  messages : List PartitionMessage

/-- A topic of a response. -/
structure TopicData where
  topicName : Option Text
  partitions : List PartitionData

/-- A response. -/
structure Response where
  throttleTime : Int
  clientSideThrottleTime : Option Int
  errorCode : Option Int
  sessionId : Option Int
  responses : List TopicData

/-- The tag buffer behind a part of the response. -/
def Version.readTags (version : Version) : Reader Unit :=
  if version.isFlexible then (fun _ => ()) <$> Decoder.readTaggedFields else pure ()

/-- `decodeAbortedTransactions`. -/
def decodeAbortedTransactions (version : Version) : Reader AbortedTransaction := do
  let producerId ← Decoder.readInt64
  let firstOffset ← Decoder.readInt64
  version.readTags
  pure { producerId, firstOffset }

/-- The array of the aborted transactions. Version 12 has `decodeAbortedTransactionsArray`. -/
def Version.readAborted (version : Version) : Reader (Option (List AbortedTransaction)) :=
  if version.isFlexible then Decoder.readUVarIntArray (decodeAbortedTransactions version)
  else some <$> Decoder.readArray (decodeAbortedTransactions version)

/-- A field that some versions have. -/
def readIf (condition : Bool) (reader : Reader Int) : Reader (Option Int) :=
  if condition then some <$> reader else pure none

/-- The fields of a partition before the messages. -/
def decodePartitionHeader (version : Version) : Reader PartitionHeader := do
  let partition ← Decoder.readInt32
  let errorCode ← Decoder.readInt16
  let highWatermark ← Decoder.readInt64
  let lastStableOffset ← Decoder.readInt64
  let lastStartOffset ← readIf version.hasStartOffset Decoder.readInt64
  let abortedTransactions ← version.readAborted
  let preferredReadReplica ← readIf version.hasReadReplica Decoder.readInt32
  pure { partition, errorCode, highWatermark, lastStableOffset, lastStartOffset,
         abortedTransactions, preferredReadReplica }

/-- The reader of the size of a record field. -/
def Version.readSize (version : Version) : Reader Int :=
  if version.isFlexible then sizeV12 else sizeV4

/-- `decodePartition`. -/
def decodePartition (version : Version) (maxArguments : Nat) (codecs : Codecs) (fuel : Nat) :
    LoopReader PartitionData := do
  let header ← once (decodePartitionHeader version)
  let messages ← (decodeMessages version.readSize maxArguments codecs fuel : LoopReader _)
  once version.readTags
  pure { toPartitionHeader := header, messages }

/-- An array of parts whose decoding is awaited. A compact length counts one more. -/
def Version.readEach {α : Type} (version : Version) (reader : LoopReader α) :
    LoopReader (List α) :=
  if version.isFlexible then do
    let length ← once Decoder.readUVarInt
    readManyAsync reader (length - 1)
  else readArrayAsync reader

/-- The reader of the name of a topic. -/
def Version.readName (version : Version) : Reader (Option Text) :=
  if version.isFlexible then Decoder.readUVarIntString else Decoder.readString

/-- `decodeResponse`. -/
def decodeResponse (version : Version) (maxArguments : Nat) (codecs : Codecs) (fuel : Nat) :
    LoopReader TopicData := do
  let topicName ← once version.readName
  let partitions ← version.readEach (decodePartition version maxArguments codecs fuel)
  once version.readTags
  pure { topicName, partitions }

/-- The fields of a response before the topics. The first tag buffer is that of the header which all
responses of a version have. -/
def decodeResponseHeader (version : Version) : Reader (Int × Option Int × Option Int) := do
  version.readTags
  let throttleTime ← Decoder.readInt32
  let errorCode ← readIf version.hasSession Decoder.readInt16
  let sessionId ← readIf version.hasSession Decoder.readInt32
  pure (throttleTime, errorCode, sessionId)

/-- A response with its topics. Where the throttle time is left to the client, it is not reported as
that of the broker. -/
def Version.response (version : Version) (header : Int × Option Int × Option Int)
    (responses : List TopicData) : Response :=
  { throttleTime := if version.throttlesClient then 0 else header.1
    clientSideThrottleTime := if version.throttlesClient then some header.1 else none
    errorCode := header.2.1
    sessionId := header.2.2
    responses }

/-- `decode`, with the decoder of the raw data. -/
def decodeFrom (version : Version) (maxArguments : Nat) (codecs : Codecs) (fuel : Nat) :
    LoopReader Response := do
  let header ← once (decodeResponseHeader version)
  let responses ← version.readEach (decodeResponse version maxArguments codecs fuel)
  once version.readTags
  pure (version.response header responses)

/-- `decode`. -/
def decode (version : Version) (maxArguments : Nat) (codecs : Codecs) (fuel : Nat)
    (rawData : Bytes) : Bounded Response :=
  Option.map (Except.map Prod.fst)
    (decodeFrom version maxArguments codecs fuel (Decoder.new rawData))

/-! ## The errors of a response -/

/-- What `parse` throws. -/
inductive ResponseError where
  | offsetOutOfRange (topic : Option Text) (partition : Int)
  | protocol (errorCode : Int)
  deriving DecidableEq

/-- The partitions with an error code, with their topics. -/
def Response.errors (data : Response) : List (Option Text × PartitionData) :=
  data.responses.flatMap fun response =>
    (response.partitions.filter fun partition => failure partition.errorCode).map
      fun partition => (response.topicName, partition)

/-- `parse`. -/
def parse (data : Response) : Except ResponseError Response :=
  match data.errors with
  | [] => .ok data
  | (topic, partition) :: _ =>
      -- the code of `OFFSET_OUT_OF_RANGE`
      if partition.errorCode = 1 then .error (.offsetOutOfRange topic partition.partition)
      else .error (.protocol partition.errorCode)

/-- A response is returned as a whole or not at all. -/
theorem parse_eq_ok_iff {data result : Response} :
    parse data = .ok result ↔
      result = data ∧ ∀ response ∈ data.responses, ∀ partition ∈ response.partitions,
        partition.errorCode = 0 := by
  have hnone : data.errors = [] ↔ ∀ response ∈ data.responses,
      ∀ partition ∈ response.partitions, partition.errorCode = 0 := by
    simp only [Response.errors, List.flatMap_eq_nil_iff, List.map_eq_nil_iff,
      List.filter_eq_nil_iff, failure, ne_eq, decide_eq_true_eq, not_not]
  rw [← hnone, parse]
  cases herrors : data.errors with
  | nil => exact ⟨fun h => ⟨(Except.ok.inj h).symm, rfl⟩, fun h => congrArg _ h.1.symm⟩
  | cons first rest =>
      refine ⟨fun h => ?_, fun h => absurd h.2 (List.cons_ne_nil _ _)⟩
      dsimp only at h
      split at h <;> cases h

/-! ## What a broker writes -/

/-- An empty tag buffer: the broker has no tagged field to write. -/
def Version.tagBytes (version : Version) : Bytes := if version.isFlexible then [0] else []

/-- The length of an array. -/
def Version.countBytes (version : Version) (count : Nat) : Bytes :=
  if version.isFlexible then uVarIntBytes (BitVec.ofInt 32 (count + 1)) else intBytes 4 count

/-- The bytes of an aborted transaction. -/
def AbortedTransaction.bytes (version : Version) (transaction : AbortedTransaction) : Bytes :=
  int64Bytes transaction.producerId ++ (int64Bytes transaction.firstOffset ++ version.tagBytes)

/-- The bytes of the aborted transactions, which may be null. -/
def Version.abortedBytes (version : Version) : Option (List AbortedTransaction) → Bytes
  | none => if version.isFlexible then uVarIntBytes 0#32 else intBytes 4 (-1)
  | some transactions =>
      version.countBytes transactions.length ++
        transactions.flatMap (AbortedTransaction.bytes version)

/-- The bytes of a field that some versions have. -/
def optionalBytes (bytesOf : Int → Bytes) (value : Option Int) : Bytes :=
  match value with
  | none => []
  | some value => bytesOf value

namespace PartitionHeader

/-- The bytes of a header. -/
def bytes (version : Version) (header : PartitionHeader) : Bytes :=
  intBytes 4 header.partition ++ (intBytes 2 header.errorCode ++
    (int64Bytes header.highWatermark ++ (int64Bytes header.lastStableOffset ++
      (optionalBytes int64Bytes header.lastStartOffset ++
        (version.abortedBytes header.abortedTransactions ++
          optionalBytes (intBytes 4) header.preferredReadReplica)))))

/-- What a consumer receives: `readArray` makes an empty array of null. -/
def received (version : Version) (header : PartitionHeader) : PartitionHeader :=
  { header with
    abortedTransactions :=
      if version.isFlexible then header.abortedTransactions
      else some (header.abortedTransactions.getD []) }

/-- The header has the fields of the version, and they have room in it. -/
structure Fits (version : Version) (header : PartitionHeader) : Prop where
  partition : FitsInt 4 header.partition
  errorCode : FitsInt 2 header.errorCode
  highWatermark : FitsInt 8 header.highWatermark
  lastStableOffset : FitsInt 8 header.lastStableOffset
  hasStartOffset : header.lastStartOffset.isSome = version.hasStartOffset
  lastStartOffset : ∀ value ∈ header.lastStartOffset, FitsInt 8 value
  count : ∀ transactions ∈ header.abortedTransactions, transactions.length < 2 ^ 31
  abortedTransactions : ∀ transactions ∈ header.abortedTransactions,
    ∀ transaction ∈ transactions,
      FitsInt 8 transaction.producerId ∧ FitsInt 8 transaction.firstOffset
  hasReadReplica : header.preferredReadReplica.isSome = version.hasReadReplica
  preferredReadReplica : ∀ value ∈ header.preferredReadReplica, FitsInt 4 value

end PartitionHeader

/-- A partition of a response as a broker writes it: the header, and the first `size` bytes of a
sequence of batches. -/
structure WirePartition (codecs : Codecs) where
  header : PartitionHeader
  batches : List (EncodedBatch codecs)
  size : Nat

/-- A topic of a response as a broker writes it. -/
structure WireTopic (codecs : Codecs) where
  topicName : Option Text
  partitions : List (WirePartition codecs)

/-- A response as a broker writes it. -/
structure WireResponse (codecs : Codecs) where
  throttleTime : Int
  errorCode : Int
  sessionId : Int
  responses : List (WireTopic codecs)

variable {codecs : Codecs}

namespace WirePartition

/-- The bytes of the record field behind its length. -/
def payload (partition : WirePartition codecs) : Bytes :=
  (partition.batches.map EncodedBatch.bytes).flatten.take partition.size

/-- The batches that are not cut. -/
def whole (partition : WirePartition codecs) : List (EncodedBatch codecs) :=
  EncodedBatch.contained partition.payload.length partition.batches

/-- The bytes of a partition. -/
def bytes (version : Version) (partition : WirePartition codecs) : Bytes :=
  partition.header.bytes version ++
    ((version.countBytes partition.payload.length ++ partition.payload) ++ version.tagBytes)

/-- What a consumer receives. -/
def received (version : Version) (partition : WirePartition codecs) : PartitionData :=
  { toPartitionHeader := partition.header.received version
    messages := EncodedBatch.messagesOf partition.whole }

/-- The record field is empty, or it has a magic byte and its whole batches can be pushed. -/
def Readable (maxArguments : Nat) (partition : WirePartition codecs) : Prop :=
  EncodedBatch.Readable maxArguments partition.payload partition.batches

/-- `Readable` of a partition is decidable as that of its records is. -/
instance (maxArguments : Nat) (partition : WirePartition codecs) :
    Decidable (partition.Readable maxArguments) :=
  inferInstanceAs (Decidable (EncodedBatch.Readable maxArguments _ _))

/-- What the decoder throws at the record field. -/
def fault (maxArguments : Nat) (partition : WirePartition codecs) : Option KafkaError :=
  if partition.Readable maxArguments then none else some (payloadError partition.payload)

/-- The partition can be written in the version, and has less than `fuel` batches. -/
structure Fits (version : Version) (fuel : Nat) (partition : WirePartition codecs) : Prop where
  header : partition.header.Fits version
  payload : partition.payload.length < 2 ^ 31
  batches : partition.batches.length < fuel

end WirePartition

namespace WireTopic

/-- The bytes of the name of a topic. -/
def nameBytes (version : Version) (topic : WireTopic codecs) : Bytes :=
  if version.isFlexible then compactBytes (topic.topicName.map Text.toUtf8)
  else stringBytes topic.topicName

/-- The bytes of a topic. -/
def bytes (version : Version) (topic : WireTopic codecs) : Bytes :=
  topic.nameBytes version ++
    ((version.countBytes topic.partitions.length ++
      topic.partitions.flatMap (WirePartition.bytes version)) ++ version.tagBytes)

/-- What a consumer receives. -/
def received (version : Version) (topic : WireTopic codecs) : TopicData :=
  { topicName := topic.topicName.map Text.toWellFormed
    partitions := topic.partitions.map (WirePartition.received version) }

/-- What the decoder throws at the first record field that it does not read. -/
def fault (maxArguments : Nat) (topic : WireTopic codecs) : Option KafkaError :=
  topic.partitions.findSome? (WirePartition.fault maxArguments)

/-- The topic can be written in the version. -/
structure Fits (version : Version) (fuel : Nat) (topic : WireTopic codecs) : Prop where
  topicName : ∀ text ∈ topic.topicName, text.toUtf8.length < 2 ^ 15
  count : topic.partitions.length < 2 ^ 31
  partitions : ∀ partition ∈ topic.partitions, partition.Fits version fuel

end WireTopic

namespace WireResponse

/-- The fields of a response before the topics. -/
def header (version : Version) (response : WireResponse codecs) : Int × Option Int × Option Int :=
  (response.throttleTime, if version.hasSession then some response.errorCode else none,
    if version.hasSession then some response.sessionId else none)

/-- The bytes of the fields before the topics. -/
def headerBytes (version : Version) (response : WireResponse codecs) : Bytes :=
  version.tagBytes ++ (intBytes 4 response.throttleTime ++
    (if version.hasSession then intBytes 2 response.errorCode ++ intBytes 4 response.sessionId
      else []))

/-- The bytes of a response. -/
def bytes (version : Version) (response : WireResponse codecs) : Bytes :=
  response.headerBytes version ++
    ((version.countBytes response.responses.length ++
      response.responses.flatMap (WireTopic.bytes version)) ++ version.tagBytes)

/-- What a consumer receives. -/
def received (version : Version) (response : WireResponse codecs) : Response :=
  version.response (response.header version)
    (response.responses.map (WireTopic.received version))

/-- The response can be written in the version. -/
structure Fits (version : Version) (fuel : Nat) (response : WireResponse codecs) : Prop where
  throttleTime : FitsInt 4 response.throttleTime
  errorCode : FitsInt 2 response.errorCode
  sessionId : FitsInt 4 response.sessionId
  count : response.responses.length < 2 ^ 31
  responses : ∀ topic ∈ response.responses, topic.Fits version fuel

/-- All record fields can be read. -/
def Readable (maxArguments : Nat) (response : WireResponse codecs) : Prop :=
  ∀ topic ∈ response.responses, ∀ partition ∈ topic.partitions, partition.Readable maxArguments

/-- `Readable` of a response is decidable partition by partition. -/
instance (maxArguments : Nat) (response : WireResponse codecs) :
    Decidable (response.Readable maxArguments) :=
  inferInstanceAs (Decidable (∀ topic ∈ response.responses, ∀ partition ∈ topic.partitions, _))

/-- What the decoder throws at the first record field that it does not read. -/
def fault (maxArguments : Nat) (response : WireResponse codecs) : Option KafkaError :=
  response.responses.findSome? (WireTopic.fault maxArguments)

/-- There is a fault unless all record fields can be read. -/
theorem fault_eq_none_iff {maxArguments : Nat} {response : WireResponse codecs} :
    response.fault maxArguments = none ↔ response.Readable maxArguments := by
  simp only [fault, WireTopic.fault, WirePartition.fault, List.findSome?_eq_none_iff,
    ite_eq_left_iff, reduceCtorEq, imp_false, not_not, Readable]

/-- Every fault is a `RangeError`. -/
theorem name_of_fault {maxArguments : Nat} {response : WireResponse codecs} {error : KafkaError}
    (h : response.fault maxArguments = some error) : error.name = .rangeError := by
  obtain ⟨topic, -, htopic⟩ := List.exists_of_findSome?_eq_some h
  obtain ⟨partition, -, hpartition⟩ := List.exists_of_findSome?_eq_some htopic
  unfold WirePartition.fault at hpartition
  split at hpartition
  · cases hpartition
  · cases hpartition
    unfold payloadError
    split <;> rfl

end WireResponse

/-! ## Reading it -/

section Reading

variable {version : Version} {maxArguments fuel : Nat}

/-- An `int64` that fits is read back. -/
theorem reads_int64 {value : Int} (h : FitsInt 8 value) :
    Reads Decoder.readInt64 (int64Bytes value) value := by
  obtain ⟨hlower, hupper⟩ := h
  exact reads_readInt64 (by omega) (by omega)

/-- An integer that fits is read back. -/
theorem reads_int {width : Nat} {value : Int} (h : FitsInt width value) :
    Reads (Decoder.readInt width) (intBytes width value) value :=
  reads_readInt h.1 h.2

/-- An empty tag buffer is read where the version has one. -/
theorem reads_readTags (version : Version) : Reads version.readTags version.tagBytes () := by
  rw [Version.readTags, Version.tagBytes]
  cases version.isFlexible with
  | false => exact Reads.pure ()
  | true => exact reads_readTaggedFields.map

/-- A field that only some versions have is read back. -/
theorem reads_readIf {condition : Bool} {reader : Reader Int} {bytesOf : Int → Bytes}
    {value : Option Int} (hcondition : value.isSome = condition)
    (h : ∀ number ∈ value, Reads reader (bytesOf number) number) :
    Reads (readIf condition reader) (optionalBytes bytesOf value) value := by
  subst hcondition
  cases value with
  | none => exact Reads.pure none
  | some number => exact (h number rfl).map

/-- An aborted transaction is read back. -/
theorem reads_decodeAbortedTransactions (version : Version) {transaction : AbortedTransaction}
    (h : FitsInt 8 transaction.producerId ∧ FitsInt 8 transaction.firstOffset) :
    Reads (decodeAbortedTransactions version) (transaction.bytes version) transaction := by
  refine (reads_int64 h.1).bind ((reads_int64 h.2).bind ?_)
  rw [← List.append_nil version.tagBytes]
  exact (reads_readTags version).bind (Reads.pure transaction)

/-- The aborted transactions are read back, null as an empty array where `readArray` reads it. -/
theorem reads_readAborted {aborted : Option (List AbortedTransaction)}
    (hcount : ∀ transactions ∈ aborted, transactions.length < 2 ^ 31)
    (h : ∀ transactions ∈ aborted, ∀ transaction ∈ transactions,
      FitsInt 8 transaction.producerId ∧ FitsInt 8 transaction.firstOffset) :
    Reads version.readAborted (version.abortedBytes aborted)
      (if version.isFlexible then aborted else some (aborted.getD [])) := by
  rw [Version.readAborted]
  cases aborted with
  | none =>
      rw [Version.abortedBytes]
      cases version.isFlexible with
      | false =>
          rw [← List.append_nil (intBytes 4 (-1))]
          exact ((@reads_readInt 4 (-1) (by decide) (by decide)).bind (Reads.pure [])).map
      | true =>
          rw [← List.append_nil (uVarIntBytes 0#32)]
          refine reads_readUVarInt_zero.bind ?_
          rw [if_pos rfl]
          exact Reads.pure none
  | some transactions =>
      have hlength := hcount transactions rfl
      have hread := fun transaction hmem =>
        reads_decodeAbortedTransactions version (h transactions rfl transaction hmem)
      rw [Version.abortedBytes, Version.countBytes]
      cases hflexible : version.isFlexible with
      | false =>
          have helements := reads_readElements hread
          rw [List.map_id'] at helements
          exact ((@reads_readInt 4 transactions.length (by omega) (by omega)).bind helements).map
      | true =>
          have hmany := reads_readMany hread
          rw [List.map_id'] at hmany
          refine (reads_compactLength (by omega)).bind ?_
          rw [if_neg (by omega), Nat.add_sub_cancel]
          exact hmany.map

/-- The header of a partition is read back as it is received. -/
theorem PartitionHeader.Fits.reads {header : PartitionHeader} (h : header.Fits version) :
    Reads (decodePartitionHeader version) (header.bytes version) (header.received version) := by
  refine (reads_int h.partition).bind ((reads_int h.errorCode).bind
    ((reads_int64 h.highWatermark).bind ((reads_int64 h.lastStableOffset).bind
      ((reads_readIf h.hasStartOffset fun value hvalue =>
        reads_int64 (h.lastStartOffset value hvalue)).bind
          ((reads_readAborted h.count h.abortedTransactions).bind ?_)))))
  rw [← List.append_nil (optionalBytes _ header.preferredReadReplica)]
  exact (reads_readIf h.hasReadReplica fun value hvalue =>
    reads_int (h.preferredReadReplica value hvalue)).bind (Reads.pure _)

/-- The size of a record field is read back. -/
theorem reads_readSize {payload : Bytes} (h : payload.length < 2 ^ 31) :
    Reads version.readSize (version.countBytes payload.length) payload.length := by
  rw [Version.readSize, Version.countBytes]
  cases version.isFlexible with
  | false => exact @reads_readInt 4 payload.length (by omega) (by omega)
  | true => exact reads_sizeV12 (by omega)

/-- The name of a topic is read back. -/
theorem reads_readName {topic : WireTopic codecs}
    (h : ∀ text ∈ topic.topicName, text.toUtf8.length < 2 ^ 15) :
    Reads version.readName (topic.nameBytes version)
      (topic.topicName.map Text.toWellFormed) := by
  rw [Version.readName, WireTopic.nameBytes]
  cases version.isFlexible with
  | false => exact reads_readString h
  | true =>
      refine reads_readUVarIntString fun text htext => ?_
      have hlength := h text htext
      omega

/-- The parts of an array are read one by one, up to the first that throws. -/
theorem comesTo_readEach (version : Version) {α ι : Type} {reader : LoopReader α} {items : List ι}
    {bytesOf : ι → Bytes} {outcome : ι → Except KafkaError α} (hlength : items.length < 2 ^ 31)
    (h : ∀ item ∈ items, ComesTo reader (bytesOf item) (outcome item)) :
    ComesTo (version.readEach reader)
      (version.countBytes items.length ++ items.flatMap bytesOf) (items.mapM outcome) := by
  rw [Version.readEach, Version.countBytes]
  cases version.isFlexible with
  | false => exact comesTo_readArrayAsync hlength h
  | true =>
      refine (reads_compactLength (by omega)).once.bind_ok ?_
      rw [Nat.add_sub_cancel]
      exact comesTo_readManyAsync h

/-- A part of a response with the tag buffer behind it. -/
theorem comesTo_tagged (version : Version) {α β : Type} {reader : LoopReader α} {bytes : Bytes}
    {fault : Option KafkaError} {value : α} (h : ComesTo reader bytes (orFault fault value))
    (make : α → β) :
    ComesTo (reader >>= fun value => once version.readTags >>= fun _ => pure (make value))
      (bytes ++ version.tagBytes) (orFault fault (make value)) := by
  have hbind := @ComesTo.bind _ _ reader bytes version.tagBytes _
    (fun value => once version.readTags >>= fun _ => pure (make value))
    (fun value => .ok (make value)) h fun value _ => by
      rw [← List.append_nil version.tagBytes]
      exact (reads_readTags version).once.bind_ok (comesTo_pure _)
  cases fault <;> exact hbind

namespace WirePartition

variable {partition : WirePartition codecs}

/-- The record field is read, or makes the reader throw. -/
theorem Fits.comesTo_messages (h : partition.Fits version fuel) :
    ComesTo (decodeMessages version.readSize maxArguments codecs fuel)
      (version.countBytes partition.payload.length ++ partition.payload)
      (orFault (partition.fault maxArguments) (EncodedBatch.messagesOf partition.whole)) := by
  intro before after
  refine (decodeMessages_payload (reads_readSize h.payload) h.batches (List.take_prefix _ _)
    before after).trans ?_
  change some (if partition.Readable maxArguments then _ else _) = _
  unfold fault
  by_cases hreadable : partition.Readable maxArguments
  · rw [if_pos hreadable, if_pos hreadable]
    rfl
  · rw [if_neg hreadable, if_neg hreadable]
    rfl

/-- A partition is read as a whole, or its record field makes the reader throw. -/
theorem Fits.comesTo (h : partition.Fits version fuel) :
    ComesTo (decodePartition version maxArguments codecs fuel) (partition.bytes version)
      (orFault (partition.fault maxArguments) (partition.received version)) :=
  h.header.reads.once.bind_ok (comesTo_tagged version h.comesTo_messages _)

end WirePartition

/-- A topic is read as a whole, or one of its partitions makes the reader throw. -/
theorem WireTopic.Fits.comesTo {topic : WireTopic codecs} (h : topic.Fits version fuel) :
    ComesTo (decodeResponse version maxArguments codecs fuel) (topic.bytes version)
      (orFault (topic.fault maxArguments) (topic.received version)) := by
  have harray := comesTo_readEach version h.count fun partition hmem =>
    @WirePartition.Fits.comesTo codecs version maxArguments fuel partition
      (h.partitions partition hmem)
  rw [mapM_orFault] at harray
  exact (reads_readName h.topicName).once.bind_ok (comesTo_tagged version harray _)

namespace WireResponse

variable {response : WireResponse codecs}

/-- The fields before the topics are read back. -/
theorem Fits.reads_header (h : response.Fits version fuel) :
    Reads (decodeResponseHeader version) (response.headerBytes version)
      (response.header version) := by
  refine (reads_readTags version).bind ((reads_int h.throttleTime).bind ?_)
  rw [header]
  cases version.hasSession with
  | false => exact Reads.pure _
  | true =>
      refine ((reads_int h.errorCode).map).bind ?_
      rw [← List.append_nil (intBytes 4 response.sessionId)]
      exact ((reads_int h.sessionId).map).bind (Reads.pure _)

/-- The response is read as a whole, or one of its record fields makes the decoder throw. -/
theorem Fits.comesTo (h : response.Fits version fuel) :
    ComesTo (decodeFrom version maxArguments codecs fuel) (response.bytes version)
      (orFault (response.fault maxArguments) (response.received version)) := by
  have harray := comesTo_readEach version h.count fun topic hmem =>
    @WireTopic.Fits.comesTo codecs version maxArguments fuel topic (h.responses topic hmem)
  rw [mapM_orFault] at harray
  exact h.reads_header.once.bind_ok (comesTo_tagged version harray _)

/-- The bytes of a response come to what a consumer receives, or to the first fault. -/
theorem Fits.decode_eq (maxArguments : Nat) (h : response.Fits version fuel) :
    decode version maxArguments codecs fuel (response.bytes version) =
      some (orFault (response.fault maxArguments) (response.received version)) := by
  have hread := @Fits.comesTo codecs version maxArguments fuel response h [] []
  rw [List.append_nil, List.nil_append] at hread
  rw [decode, show decodeFrom version maxArguments codecs fuel
    (Decoder.new (response.bytes version)) = _ from hread]
  cases response.fault maxArguments <;> rfl

end WireResponse

/-- The bytes of a response come to all that the broker wrote, and to the messages of the batches
that are whole; or, where a record field cannot be read, to a `RangeError`. -/
theorem decode_bytes {response : WireResponse codecs} (maxArguments : Nat)
    (h : response.Fits version fuel) :
    (response.Readable maxArguments →
      decode version maxArguments codecs fuel (response.bytes version) =
        some (.ok (response.received version))) ∧
    (¬ response.Readable maxArguments →
      ∃ error, response.fault maxArguments = some error ∧ error.name = .rangeError ∧
        decode version maxArguments codecs fuel (response.bytes version) =
          some (.error error)) := by
  rw [h.decode_eq maxArguments, ← WireResponse.fault_eq_none_iff]
  cases hfault : response.fault maxArguments with
  | none => exact ⟨fun _ => rfl, fun h => absurd rfl h⟩
  | some error =>
      exact ⟨fun h => (by cases h), fun _ => ⟨error, rfl, WireResponse.name_of_fault hfault, rfl⟩⟩

end Reading

/-- A response with a partition whose second batch is cut, and one without records. -/
def sampleResponse : WireResponse RecordBatch.noCodecs :=
  let header : PartitionHeader :=
    { partition := 0, errorCode := 0, highWatermark := 2, lastStableOffset := 2
      lastStartOffset := some 0, abortedTransactions := none, preferredReadReplica := some (-1) }
  { throttleTime := 0
    errorCode := 0
    sessionId := 7
    responses := [{
      topicName := some (Text.ofString "orders")
      partitions := [{ header, batches := sampleBatches, size := 150 },
        { header := { header with partition := 1 }, batches := [], size := 0 }] }] }

/-- The sample response can be encoded. -/
theorem sampleResponse_fits : sampleResponse.Fits .v12 3 := by
  refine ⟨by decide, by decide, by decide, by decide, fun topic htopic => ?_⟩
  cases List.mem_singleton.mp htopic
  refine ⟨fun text htext => ?_, by decide, fun partition hpartition => ?_⟩
  · cases htext
    decide
  · have hheader : partition.header.Fits .v12 := by
      rcases List.mem_pair.mp hpartition with rfl | rfl <;>
        exact ⟨by decide, by decide, by decide, by decide, by decide, by decide, by simp, by simp,
          by decide, by decide⟩
    have hlength : partition.payload.length < 2 ^ 31 := by
      have hle := List.length_take_le partition.size
        (partition.batches.map EncodedBatch.bytes).flatten
      rcases List.mem_pair.mp hpartition with rfl | rfl
      · exact lt_of_le_of_lt hle (by decide)
      · decide
    refine ⟨hheader, hlength, ?_⟩
    rcases List.mem_pair.mp hpartition with rfl | rfl <;> decide

/-- The record of the first batch is received, the second batch is left out. -/
theorem decode_sampleResponse :
    decode .v12 65535 RecordBatch.noCodecs 3 (sampleResponse.bytes .v12) =
      some (.ok (sampleResponse.received .v12)) ∧
    (sampleResponse.received .v12).responses.map (fun topic =>
      topic.partitions.map fun partition => partition.messages.length) = [[1, 0]] := by
  have hreadable : sampleResponse.Readable 65535 := by decide +kernel
  exact ⟨(decode_bytes 65535 sampleResponse_fits).1 hreadable, by decide +kernel⟩

end KafkaJs.Protocol.Fetch
