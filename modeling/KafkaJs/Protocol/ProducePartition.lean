import KafkaJs.Protocol.FetchMessages
import KafkaJs.Protocol.RecordBatchRoundTrip
import KafkaJs.Protocol.ReturnedWrites
import KafkaJs.Utils.Number

/-!
# The record field of a produce request

The partition encoder of produce requests of version 9 against the reader of the same field in
fetch responses. Both versions are flexible, where a record field stands behind its compact length.
The encoder writes the length as a 32-bit integer instead, as the versions before did: the field is
the one that version 4 of the fetch response reads, `partitionsEncoder_agrees_v4`, and never the one
that version 12 reads, `not_agrees`. That reader takes the first byte of the length for all of it
and stops short of the end of the field, whatever the batch.
-/

namespace KafkaJs.Protocol

open KafkaJs.Data

/-! ## The partition encoder -/

namespace Produce

/-- The timestamp of a message: an integer, as a number or as a string. -/
inductive Timestamp where
  | number (value : Int)
  | string (value : Int)
  deriving DecidableEq

/-- The integer. -/
def Timestamp.value : Timestamp → Int
  | .number value => value
  | .string value => value

/-- The left operand of `(message.timestamp || dateNow) - firstTimestamp`. -/
def timestampOr (dateNow : Int) : Option Timestamp → Int
  | none => dateNow
  | some (.number value) => if value = 0 then dateNow else value
  | some (.string value) => value

/-- A message. -/
structure Message where
  key : Option Payload
  value : Option Payload
  headers : InsertionMap Text HeaderValue := .empty
  timestamp : Option Timestamp := none

/-- The argument of the partition encoder: the data of a partition and what the request adds to
it, with the defaults of the request. -/
structure PartitionData where
  partition : Int
  messages : List Message
  transactionalId : Option Text := none
  firstSequence : Option Int := none
  producerId : Int := -1
  producerEpoch : Int := 0

namespace PartitionData

/-- `timestamps`. -/
def timestamps (dateNow : Int) (data : PartitionData) : List Int :=
  let messageTimestamps :=
    Number.sort ((data.messages.filterMap Message.timestamp).map Timestamp.value)
  if messageTimestamps.length = 0 then [dateNow] else messageTimestamps

/-- `firstTimestamp`. -/
def firstTimestamp (dateNow : Int) (data : PartitionData) : Int :=
  (data.timestamps dateNow).headD dateNow

/-- `maxTimestamp`. -/
def maxTimestamp (dateNow : Int) (data : PartitionData) : Int :=
  (data.timestamps dateNow).getLastD dateNow

/-- `records`, before they are encoded. -/
def records (dateNow : Int) (data : PartitionData) : List Record :=
  data.messages.mapIdx fun i message =>
    { offsetDelta := i
      timestampDelta := Number.ofInt (Number.ofInt (timestampOr dateNow message.timestamp) -
        Number.ofInt (data.firstTimestamp dateNow))
      key := message.key
      value := message.value
      headers := message.headers }

/-- The arguments of the record batch. An empty transactional id counts as none. -/
def recordBatch (compression : Option CodecType) (dateNow : Int) (data : PartitionData) :
    RecordBatch Record :=
  { compression
    firstTimestamp := data.firstTimestamp dateNow
    maxTimestamp := data.maxTimestamp dateNow
    lastOffsetDelta := (data.records dateNow).length - 1
    transactional := data.transactionalId.any fun id => !id.isEmpty
    producerId := data.producerId
    producerEpoch := data.producerEpoch
    firstSequence := data.firstSequence.getD 0
    records := data.records dateNow }

end PartitionData

/-- `partitionsEncoder`. -/
def partitionsEncoder (codecs : Codecs) (compression : Option CodecType) (dateNow : Int)
    (data : PartitionData) : Except KafkaError Encoder := do
  let recordBatch ← (data.recordBatch compression dateNow).encode codecs
  let encoder ← Encoder.new.writeInt32 data.partition
  let encoder ← encoder.writeInt32 recordBatch.size
  let encoder ← encoder.writeEncoder recordBatch
  encoder.writeUVarIntBytes none

/-- `partitionsEncoder` of version 3, which the versions up to 8 use: there is no tag buffer. -/
def V3.partitionsEncoder (codecs : Codecs) (compression : Option CodecType) (dateNow : Int)
    (data : PartitionData) : Except KafkaError Encoder := do
  let recordBatch ← (data.recordBatch compression dateNow).encode codecs
  let encoder ← Encoder.new.writeInt32 data.partition
  let encoder ← encoder.writeInt32 recordBatch.size
  encoder.writeEncoder recordBatch

/-- The bytes behind the partition index and in front of the tag buffer are a record field of which
the reader makes exactly the records of the batch, and it is left at the tag buffer. -/
def Agrees (readSize : Reader Int) (maxArguments : Nat) (codecs : Codecs)
    (compression : Option CodecType) (dateNow : Int) (data : PartitionData) (encoder : Encoder) :
    Prop :=
  let batch := data.recordBatch compression dateNow
  ∃ field, encoder.buffer = intBytes 4 data.partition ++ (field ++ [0]) ∧
    DecodesTo readSize maxArguments codecs field
      (recordsIn batch.context (batch.records.map (Record.decoded batch)))

/-! ## What is written -/

variable {codecs : Codecs} {compression : Option CodecType} {dateNow : Int}
  {data : PartitionData} {encoder : Encoder}

/-- What a writer of an integer leaves behind where it returns. -/
theorem writeInt_ok {width : Nat} {value : Int} {next : Encoder}
    (h : encoder.writeInt width value = .ok next) :
    FitsInt width value ∧ next.offset = encoder.offset + width := by
  obtain ⟨roomy, hroomy, h⟩ := bind_eq_ok h
  obtain ⟨buf, hput, h⟩ := bind_eq_ok h
  have hsame := (ensureAvailable_eq_ok hroomy).1
  unfold putInt at hput
  split at hput
  · cases hput
  · next hfits =>
      cases h
      exact ⟨⟨by omega, by omega⟩, by rw [hsame]⟩

/-- What a writer of raw bytes leaves behind where it returns. -/
theorem writeBufferInternal_ok {buffer : Bytes} {next : Encoder}
    (h : encoder.writeBufferInternal buffer = .ok next) :
    next.offset = encoder.offset + buffer.length := by
  obtain ⟨roomy, hroomy, h⟩ := bind_eq_ok h
  cases h
  show roomy.offset + _ = _
  rw [(ensureAvailable_eq_ok hroomy).1]

/-- An encoded batch of less than `2 ^ 31` bytes is held as a whole. Beyond that the encoder counts
bytes that it has no room for. -/
theorem recordBatch_holds {batch : RecordBatch Record} (hok : batch.encode codecs = .ok encoder)
    (hsize : encoder.size < 2 ^ 31) : ∃ bytes, encoder.Holds bytes ∧ bytes.length < 2 ^ 31 := by
  obtain ⟨records, _, hok⟩ := bind_eq_ok hok
  obtain ⟨batchBody, _, hok⟩ := bind_eq_ok hok
  obtain ⟨content, _, hok⟩ := bind_eq_ok hok
  obtain ⟨outer, houter, hok⟩ := bind_eq_ok hok
  have hwrites := writes_writeInt64 batch.firstOffset
  rcases hwrites.builds (by simp) with ⟨other, hother, houterHolds⟩ | ⟨hlarge, _⟩
  · cases hother.symm.trans houter
    have hfirst : outer.offset = 8 := by
      rw [houterHolds.offset, length_int64Bytes]
    have hlast : encoder.offset = 8 + 4 + content.buffer.length := by
      obtain ⟨roomy, hroomy, hrest⟩ := bind_eq_ok hok
      obtain ⟨inner, hinner, hrest⟩ := bind_eq_ok hrest
      rw [writeBufferInternal_ok hrest, (writeInt_ok hinner).2, (ensureAvailable_eq_ok hroomy).1,
        hfirst]
    rw [Encoder.size, hlast] at hsize
    have hcontent := writes_writeBytes (show content.buffer.length < 2 ^ 31 by omega)
    have hlength : (int64Bytes batch.firstOffset ++
        (intBytes 4 content.buffer.length ++ content.buffer)).length < 2 ^ 31 := by
      simp only [List.length_append, length_int64Bytes, length_intBytes]
      omega
    refine ⟨_, (hwrites.bind hcontent).builds.holds hlength ?_, hlength⟩
    rw [houter, ok_bind]
    exact hok
  · rw [length_int64Bytes] at hlarge
    omega

/-- The encoder of version 3 holds the index of the partition and the batch behind its length. -/
theorem V3.partitionsEncoder_holds
    (hok : V3.partitionsEncoder codecs compression dateNow data = .ok encoder) :
    ∃ recordBatch, (data.recordBatch compression dateNow).encode codecs = .ok recordBatch ∧
      recordBatch.buffer.length < 2 ^ 31 ∧
      encoder.Holds (intBytes 4 data.partition ++ fieldV4 recordBatch.buffer) := by
  obtain ⟨recordBatch, hbatch, hok⟩ := bind_eq_ok hok
  obtain ⟨first, hfirst, hrest⟩ := bind_eq_ok hok
  obtain ⟨second, hsecond, _⟩ := bind_eq_ok hrest
  obtain ⟨hpartition, _⟩ := writeInt_ok hfirst
  obtain ⟨hsize, _⟩ := writeInt_ok hsecond
  obtain ⟨bytes, hholds, hlength⟩ := recordBatch_holds hbatch (by
    have hupper := hsize.2
    omega)
  have hbounded := hholds.bounded
  have hle := hholds.length_le
  rw [show (recordBatch.size : Int) = bytes.length by rw [Encoder.size, hholds.offset]] at hsize
  refine ⟨recordBatch, hbatch, by rw [hholds.buffer_eq]; exact hlength, ?_⟩
  rw [fieldV4, hholds.buffer_eq]
  have hwrites := (writes_writeInt hpartition.1 hpartition.2).bind
    ((writes_writeInt hsize.1 hsize.2).bind (writes_writeBufferInternal bytes))
  have hbytes : (intBytes 4 data.partition ++ (intBytes 4 bytes.length ++ bytes)).length <
      2 ^ 31 := by
    simp only [List.length_append, length_intBytes]
    omega
  refine hwrites.builds.holds hbytes ?_
  rw [← hok]
  show _ = (Encoder.new.writeInt 4 _ >>= fun encoder => encoder.writeInt 4 recordBatch.size >>= _)
  rw [Encoder.size, hholds.offset]
  refine congrArg _ (funext fun encoder => congrArg _ (funext fun encoder => ?_))
  show _ = encoder.writeBufferInternal recordBatch.buffer
  rw [hholds.buffer_eq]

/-- The encoder of a partition holds its index, the batch behind its length and an empty tag
buffer. -/
theorem partitionsEncoder_buffer
    (hok : partitionsEncoder codecs compression dateNow data = .ok encoder) :
    ∃ recordBatch, (data.recordBatch compression dateNow).encode codecs = .ok recordBatch ∧
      recordBatch.buffer.length < 2 ^ 31 ∧
      encoder.buffer = intBytes 4 data.partition ++ (fieldV4 recordBatch.buffer ++ [0]) := by
  obtain ⟨recordBatch, hbatch, hok⟩ := bind_eq_ok hok
  obtain ⟨first, hfirst, hok⟩ := bind_eq_ok hok
  obtain ⟨second, hsecond, hok⟩ := bind_eq_ok hok
  obtain ⟨untagged, huntagged, hok⟩ := bind_eq_ok hok
  have hv3 : V3.partitionsEncoder codecs compression dateNow data = .ok untagged := by
    rw [V3.partitionsEncoder, hbatch, ok_bind, hfirst, ok_bind, hsecond, ok_bind, huntagged]
  obtain ⟨other, hother, hlength, hholds⟩ := V3.partitionsEncoder_holds hv3
  cases hbatch.symm.trans hother
  have hle := hholds.length_le_two_pow
  have htagged := (writes_writeUVarIntBytes none).holds hholds (by
    show _ + 1 < 2 ^ 31
    omega) hok
  refine ⟨recordBatch, hbatch, hlength, ?_⟩
  rw [htagged.buffer_eq, List.append_assoc]
  rfl

/-! ## The flexible reader -/

/-- A byte without the top bit is an unsigned integer of its own. -/
theorem reads_readUVarInt_byte {byte : UInt8} (h : byte.toNat < 128) :
    Reads Decoder.readUVarInt [byte] byte.toNat := by
  have hread := reads_readUVarInt (BitVec.ofNat 32 byte.toNat)
  have hvalue : (BitVec.ofNat 32 byte.toNat).toNat = byte.toNat := by
    rw [BitVec.toNat_ofNat]
    omega
  have hbytes : uVarIntBytes (BitVec.ofNat 32 byte.toNat) = [byte] := by
    have hgroups : groups byte.toNat byte.toNat = [UInt8.ofNat byte.toNat] := by
      cases hcases : byte.toNat with
      | zero => rfl
      | succ n => rw [groups, if_pos (by omega)]
    rw [uVarIntBytes, uVarIntLoop_eq, hvalue, hgroups, UInt8.ofNat_toNat]
  rwa [hvalue, hbytes] at hread

/-- The reader of a record field is left right behind the size or as many bytes further as the size
says. -/
theorem decodeMessages_offset {readSize : Reader Int} {size : Int} {decoder sized next : Decoder}
    {maxArguments fuel : Nat} {messages : List PartitionMessage}
    (hsize : readSize decoder = .ok (size, sized))
    (h : decodeMessages readSize maxArguments codecs fuel decoder = some (.ok (messages, next))) :
    next.offset = sized.offset ∨ 0 < size ∧ next.offset = sized.offset + size := by
  rw [decodeMessages, hsize] at h
  dsimp only at h
  by_cases hstop : size ≤ 0 ∨ ¬ sized.canReadBytes size
  · rw [if_pos hstop] at h
    cases h
    exact Or.inl rfl
  · have hpos : 0 < size := by
      by_contra hneg
      exact hstop (Or.inl (by omega))
    rw [if_neg hstop, Decoder.readBytesOf, if_neg (by omega)] at h
    obtain ⟨result, _, hresult⟩ := Option.map_eq_some_iff.mp h
    cases result with
    | error error => cases hresult
    | ok value =>
        cases hresult
        exact Or.inr ⟨hpos, rfl⟩

/-- Of a length of 32 bits the flexible reader takes the first byte. -/
theorem sizeV12_fieldV4 {payload : Bytes} (h : payload.length < 2 ^ 31) (before after : Bytes) :
    sizeV12 ⟨before ++ (fieldV4 payload ++ after), before.length⟩ =
      .ok ((payload.length / 256 ^ 3 : Nat) - 1,
        ⟨before ++ (fieldV4 payload ++ after), (before.length : Int) + 1⟩) := by
  have hmod : ((payload.length : Int) % (256 ^ 4 : Nat)).toNat = payload.length := by omega
  have hfield : fieldV4 payload ++ after = [UInt8.ofNat (payload.length / 256 ^ 3)] ++
      (bigEndian 3 payload.length ++ payload ++ after) := by
    rw [fieldV4, intBytes, hmod, bigEndian, Nat.mod_eq_of_lt (by omega)]
    rfl
  have hbyte : (UInt8.ofNat (payload.length / 256 ^ 3)).toNat = payload.length / 256 ^ 3 :=
    Text.toNat_ofNat_byte (by omega)
  have hread := reads_readUVarInt_byte (show (UInt8.ofNat (payload.length / 256 ^ 3)).toNat < 128 by
    rw [hbyte]
    omega)
  have hsize := (hread.map (f := fun length : Nat => (length : Int) - 1)) before
    (bigEndian 3 payload.length ++ payload ++ after)
  rw [hbyte, ← hfield] at hsize
  exact hsize

/-- The flexible reader stops before the end of a field behind a length of 32 bits. -/
theorem not_decodesTo_fieldV4 {payload : Bytes} (h : payload.length < 2 ^ 31)
    (maxArguments : Nat) (messages : List PartitionMessage) :
    ¬ DecodesTo sizeV12 maxArguments codecs (fieldV4 payload) messages := by
  intro hdecodes
  obtain ⟨fuel, hfuel⟩ := hdecodes [] []
  have hlength : (fieldV4 payload).length = 4 + payload.length := by
    rw [fieldV4, List.length_append, length_intBytes]
  have hend := decodeMessages_offset (sizeV12_fieldV4 h [] []) (hfuel fuel (le_refl fuel))
  simp only [List.length_nil, hlength] at hend
  omega

/-- Where the first byte is zero it takes the field for null. -/
theorem decodeMessages_fieldV4_small {payload : Bytes} (h : payload.length < 2 ^ 24)
    (maxArguments fuel : Nat) (before after : Bytes) :
    decodeMessages sizeV12 maxArguments codecs fuel
        ⟨before ++ (fieldV4 payload ++ after), before.length⟩ =
      some (.ok ([], ⟨before ++ (fieldV4 payload ++ after), (before.length : Int) + 1⟩)) := by
  have hzero : payload.length / 256 ^ 3 = 0 := Nat.div_eq_of_lt h
  rw [decodeMessages, sizeV12_fieldV4 (by omega), hzero]
  exact if_pos (Or.inl (by decide))

/-! ## The two readers -/

/-- The reader of version 12 does not agree with such a field. -/
theorem not_agrees_of_buffer {payload : Bytes} (h : payload.length < 2 ^ 31) (maxArguments : Nat)
    (hbuffer : encoder.buffer = intBytes 4 data.partition ++ (fieldV4 payload ++ [0])) :
    ¬ Agrees sizeV12 maxArguments codecs compression dateNow data encoder := by
  rintro ⟨field, hfield, hdecodes⟩
  rw [hbuffer] at hfield
  have hsame := List.append_cancel_right (List.append_cancel_left hfield)
  rw [← hsame] at hdecodes
  exact not_decodesTo_fieldV4 h maxArguments _ hdecodes

/-- A message in a partition. -/
def sampleData : PartitionData :=
  { partition := 3
    messages := [{ key := none, value := some (.string (Text.ofString "v")) }] }

/-- The reader of version 4 agrees with it, unless there are more records than a call takes
arguments. -/
theorem partitionsEncoder_agrees_v4 {maxArguments : Nat}
    (hcount : data.messages.length ≤ maxArguments)
    (hcodec : (data.recordBatch compression dateNow).HasCodec codecs)
    (hrange : (data.recordBatch compression dateNow).InRange)
    (hrecords : (data.recordBatch compression dateNow).recordsBytes.length < 2 ^ 31)
    (hbytes : ((data.recordBatch compression dateNow).bytes codecs).length < 2 ^ 31)
    (hok : partitionsEncoder codecs compression dateNow data = .ok encoder) :
    Agrees sizeV4 maxArguments codecs compression dateNow data encoder := by
  obtain ⟨recordBatch, hbatch, hlength, hbuffer⟩ := partitionsEncoder_buffer hok
  obtain ⟨hholds, _, _⟩ := RecordBatch.encode_holds hcodec hrange hrecords hbytes hbatch
  refine ⟨fieldV4 recordBatch.buffer, hbuffer, ?_⟩
  let encoded := (data.recordBatch compression dateNow).encoded hcodec hrange hrecords hbytes
  have hone : ([encoded].map EncodedBatch.bytes).flatten = recordBatch.buffer := by
    rw [hholds.buffer_eq, List.map_singleton, List.flatten_singleton]
    rfl
  have hwhole : EncodedBatch.contained recordBatch.buffer.length [encoded] = [encoded] := by
    have hsize : encoded.bytes.length ≤ recordBatch.buffer.length := by
      rw [← hone, List.map_singleton, List.flatten_singleton]
    rw [EncodedBatch.contained, if_pos hsize, EncodedBatch.contained]
  have hlong : 16 < recordBatch.buffer.length := by
    have htotal := encoded.length_bytes
    have hoverhead := encoded.overhead
    rw [← hone, List.map_singleton, List.flatten_singleton]
    omega
  have hpushable : EncodedBatch.Pushable maxArguments [encoded] := by
    intro batch hmem
    cases List.mem_singleton.mp hmem
    refine le_of_eq_of_le ?_ hcount
    show ((data.records dateNow).map _).length = _
    rw [List.length_map, PartitionData.records, List.length_mapIdx]
  have hcut : recordBatch.buffer <+: ([encoded].map EncodedBatch.bytes).flatten :=
    ⟨[], by rw [List.append_nil, hone]⟩
  have hreadable : EncodedBatch.Readable maxArguments recordBatch.buffer [encoded] := by
    refine Or.inr ⟨hlong, ?_⟩
    rw [hwhole]
    exact hpushable
  have hsize : Reads sizeV4 (intBytes 4 recordBatch.buffer.length) recordBatch.buffer.length :=
    @reads_readInt 4 _ (by omega) (by omega)
  have hdecodes := (decodesTo_iff maxArguments hsize hcut).mpr hreadable
  rw [hwhole, EncodedBatch.messagesOf, List.flatMap_singleton] at hdecodes
  exact hdecodes

end Produce

end KafkaJs.Protocol
