import KafkaJs.Network.Framing
import KafkaJs.Protocol.EncoderWrites
import KafkaJs.Protocol.PrimitiveReaders

/-!
# Requests as bytes

`protocol/request.js`: a request is written as its size on 32 bits, its header and what its `encode`
gives. `requestFrames` takes the requests off a stream as the other side does, and `readRequest`
reads the header of one. `createRequest_ok` says what `createRequest` returns where it does not
throw, and `drain_requests` that the requests in a stream of such bytes are those that were written.
-/

namespace KafkaJs.Network

open KafkaJs.Data KafkaJs.Execution KafkaJs.Protocol

/-- The arguments of `createRequest` that go into the header. -/
structure RequestHeader where
  apiKey : Int
  apiVersion : Int
  correlationId : Int
  clientId : Option Text
  deriving DecidableEq

/-- `createRequest`, after `encode` has returned an encoder. -/
def createRequest (header : RequestHeader) (payload : Encoder) : Except KafkaError Encoder := do
  let requestPayload ← Encoder.new.writeInt16 header.apiKey
  let requestPayload ← requestPayload.writeInt16 header.apiVersion
  let requestPayload ← requestPayload.writeInt32 header.correlationId
  let requestPayload ← requestPayload.writeString header.clientId
  let requestPayload ← requestPayload.writeEncoder payload
  let encoder ← Encoder.new.writeInt32 requestPayload.size
  encoder.writeEncoder requestPayload

namespace RequestHeader

/-- The fields have room for the header. -/
structure Fits (header : RequestHeader) : Prop where
  apiKey : FitsInt 2 header.apiKey
  apiVersion : FitsInt 2 header.apiVersion
  correlationId : FitsInt 4 header.correlationId
  clientId : ∀ text ∈ header.clientId, text.toUtf8.length < 2 ^ 15

/-- The bytes of a header. -/
def bytes (header : RequestHeader) : Bytes :=
  intBytes 2 header.apiKey ++ (intBytes 2 header.apiVersion ++
    (intBytes 4 header.correlationId ++ stringBytes header.clientId))

/-- The header as it is read: a lone surrogate of the client id is replaced. -/
def wellFormed (header : RequestHeader) : RequestHeader :=
  { header with clientId := header.clientId.map Text.toWellFormed }

end RequestHeader

/-- The bytes behind the size of a request. -/
def requestContent (header : RequestHeader) (payload : Bytes) : Bytes := header.bytes ++ payload

/-- The bytes of a request. -/
def requestBytes (header : RequestHeader) (payload : Bytes) : Bytes :=
  intBytes 4 (requestContent header payload).length ++ requestContent header payload

/-! ## What is written -/

/-- The writes of `requestPayload`. -/
def writeRequestPayload (header : RequestHeader) (payload : Encoder) (encoder : Encoder) :
    Except KafkaError Encoder := do
  let encoder ← encoder.writeInt16 header.apiKey
  let encoder ← encoder.writeInt16 header.apiVersion
  let encoder ← encoder.writeInt32 header.correlationId
  let encoder ← encoder.writeString header.clientId
  encoder.writeEncoder payload

/-- A request is the size of its header and payload, followed by both. -/
theorem createRequest_eq (header : RequestHeader) (payload : Encoder) :
    createRequest header payload = (do
      let requestPayload ← writeRequestPayload header payload Encoder.new
      let encoder ← Encoder.new.writeInt32 requestPayload.size
      encoder.writeEncoder requestPayload) := by
  simp only [createRequest, writeRequestPayload, bind_assoc]

variable {header : RequestHeader} {payload encoder : Encoder}

/-- The header and the payload are written one behind the other. -/
theorem writes_requestPayload (h : header.Fits) (payload : Encoder) :
    Writes (writeRequestPayload header payload) (requestContent header payload.buffer) := by
  have hwrites := (writes_writeInt h.apiKey.1 h.apiKey.2).bind
    ((writes_writeInt h.apiVersion.1 h.apiVersion.2).bind
      ((writes_writeInt h.correlationId.1 h.correlationId.2).bind
        ((writes_writeString h.clientId).bind (writes_writeBufferInternal payload.buffer))))
  rw [requestContent, RequestHeader.bytes, List.append_assoc, List.append_assoc, List.append_assoc]
  exact hwrites

/-- A header that does not fit is not written. -/
theorem rejects_requestPayload (h : ¬ header.Fits) (payload : Encoder) :
    Rejects (writeRequestPayload header payload) := by
  by_cases hkey : FitsInt 2 header.apiKey
  · by_cases hversion : FitsInt 2 header.apiVersion
    · by_cases hid : FitsInt 4 header.correlationId
      · have hclient : ∃ text ∈ header.clientId, ¬ text.toUtf8.length < 2 ^ 15 := by
          by_contra hall
          push Not at hall
          exact h ⟨hkey, hversion, hid, hall⟩
        obtain ⟨text, htext, hlong⟩ := hclient
        refine Rejects.bind_right (Rejects.bind_right (Rejects.bind_right (Rejects.bind_left ?_)))
        rw [Option.mem_def.mp htext]
        refine Rejects.bind_right (Rejects.bind_left (rejects_writeInt ?_))
        intro hfits
        exact hlong (by have := hfits.2; omega)
      · exact Rejects.bind_right (Rejects.bind_right (rejects_writeInt hid).bind_left)
    · exact Rejects.bind_right (rejects_writeInt hversion).bind_left
  · exact (rejects_writeInt hkey).bind_left

/-- Where `createRequest` returns, the header fits its fields and the bytes are those of the
request. -/
theorem createRequest_ok (hok : createRequest header payload = .ok encoder)
    (hlength : (requestBytes header payload.buffer).length < 2 ^ 31) :
    header.Fits ∧ encoder.buffer = requestBytes header payload.buffer := by
  have hlengths : (requestBytes header payload.buffer).length =
      4 + (requestContent header payload.buffer).length := by
    rw [requestBytes, List.length_append, length_intBytes]
  rw [createRequest_eq] at hok
  by_cases hfits : header.Fits
  · refine ⟨hfits, ?_⟩
    rcases writes_requestPayload hfits payload _ [] Encoder.holds_new
      (by rw [List.length_nil]; omega) with ⟨next, hnext, hholds, -⟩ | ⟨-, -, error, herror⟩
    · rw [List.nil_append] at hholds
      have hsize : (next.size : Int) = (requestContent header payload.buffer).length :=
        congrArg Nat.cast hholds.offset
      have hwrites := (@writes_writeInt 4 (requestContent header payload.buffer).length
        (by omega) (by omega)).bind (writes_writeBufferInternal next.buffer)
      rw [hnext, ok_bind, hsize] at hok
      rcases hwrites _ [] Encoder.holds_new
        (by rw [hholds.buffer_eq, List.length_nil, List.length_append, length_intBytes]; omega) with
        ⟨last, hlast, hlasts, -⟩ | ⟨-, -, error, herror⟩
      · cases hlast.symm.trans hok
        rw [List.nil_append, hholds.buffer_eq] at hlasts
        exact hlasts.buffer_eq
      · cases herror.symm.trans hok
    · rw [herror] at hok
      cases hok
  · obtain ⟨error, herror⟩ := rejects_requestPayload hfits payload Encoder.new
    rw [herror] at hok
    cases hok

/-! ## What is read -/

/-- The header of a request. -/
def readHeader : Reader RequestHeader := do
  let apiKey ← Decoder.readInt16
  let apiVersion ← Decoder.readInt16
  let correlationId ← Decoder.readInt32
  let clientId ← Decoder.readString
  pure ⟨apiKey, apiVersion, correlationId, clientId⟩

/-- The header of a request and what follows it. -/
def readRequest (content : Bytes) : Except KafkaError (RequestHeader × Bytes) := do
  let (header, decoder) ← readHeader (Decoder.new content)
  let (payload, _) ← decoder.readAll
  pure (header, payload)

/-- A header that fits is read back, its texts well formed. -/
theorem reads_readHeader (h : header.Fits) : Reads readHeader header.bytes header.wellFormed := by
  refine (reads_readInt h.apiKey.1 h.apiKey.2).bind
    ((reads_readInt h.apiVersion.1 h.apiVersion.2).bind
      ((reads_readInt h.correlationId.1 h.correlationId.2).bind ?_))
  rw [← List.append_nil (stringBytes header.clientId)]
  exact (reads_readString h.clientId).bind (Reads.pure _)

/-- A request is read as it was written. -/
theorem readRequest_content (h : header.Fits) (payload : Bytes) :
    readRequest (requestContent header payload) = .ok (header.wellFormed, payload) := by
  have hread := reads_readHeader h [] payload
  have hall : slice (requestContent header payload) header.bytes.length
      (requestContent header payload).length = payload := by
    have hle : header.bytes.length ≤ (requestContent header payload).length := by
      rw [requestContent, List.length_append]
      omega
    rw [slice, sliceIndex, if_neg (by omega), sliceIndex, if_neg (by omega), Int.toNat_natCast,
      Int.toNat_natCast, Nat.min_self, Nat.min_eq_left hle, requestContent, List.drop_left,
      List.length_append, Nat.add_sub_cancel_left, List.take_length]
  rw [List.nil_append, List.length_nil] at hread
  rw [readRequest, Decoder.new]
  show (readHeader ⟨header.bytes ++ payload, 0⟩ >>= _) = _
  rw [show readHeader ⟨header.bytes ++ payload, 0⟩ = _ from hread, ok_bind]
  show (Except.ok (header.wellFormed,
    slice (requestContent header payload) (0 + header.bytes.length) _) : Except KafkaError _) = _
  rw [Int.zero_add]
  exact congrArg (fun rest => Except.ok (header.wellFormed, rest)) hall

/-! ## The requests of a stream -/

/-- The first request of a buffer, behind its size, and the bytes behind it. -/
def nextRequest (buffer : Bytes) : Option (Bytes × Bytes) :=
  if 4 ≤ buffer.length ∧ 0 ≤ sizeOf buffer ∧ 4 + sizeOf buffer ≤ buffer.length then
    some ((buffer.drop 4).take (sizeOf buffer).toNat, buffer.drop (4 + (sizeOf buffer).toNat))
  else none

/-- A frame is taken exactly when its size and all of its bytes have arrived. -/
theorem nextRequest_eq_some {buffer content rest : Bytes} :
    nextRequest buffer = some (content, rest) ↔
      (4 ≤ buffer.length ∧ 0 ≤ sizeOf buffer ∧ 4 + sizeOf buffer ≤ buffer.length) ∧
        content = (buffer.drop 4).take (sizeOf buffer).toNat ∧
        rest = buffer.drop (4 + (sizeOf buffer).toNat) := by
  rw [nextRequest, Option.ite_none_right_eq_some, Option.some.injEq, Prod.mk.injEq,
    @eq_comm _ _ content, @eq_comm _ _ rest]

/-- Taking a frame leaves fewer bytes. -/
theorem length_nextRequest {buffer content rest : Bytes}
    (h : nextRequest buffer = some (content, rest)) : rest.length < buffer.length := by
  obtain ⟨hwhole, -, hrest⟩ := nextRequest_eq_some.mp h
  rw [hrest, List.length_drop]
  omega

/-- Bytes that arrive later do not change the frame taken before. -/
theorem nextRequest_append {buffer content rest : Bytes} (more : Bytes)
    (h : nextRequest buffer = some (content, rest)) :
    nextRequest (buffer ++ more) = some (content, rest ++ more) := by
  obtain ⟨⟨hlength, hsize, hroom⟩, hcontent, hrest⟩ := nextRequest_eq_some.mp h
  refine nextRequest_eq_some.mpr ⟨⟨?_, ?_, ?_⟩, ?_, ?_⟩
  · rw [List.length_append]
    omega
  · exact hsize.trans_eq (sizeOf_append hlength more).symm
  · rw [sizeOf_append hlength, List.length_append]
    omega
  · rw [hcontent, sizeOf_append hlength, List.drop_append_of_le_length (by omega),
      List.take_append_of_le_length (by rw [List.length_drop]; omega)]
  · rw [hrest, sizeOf_append hlength, List.drop_append_of_le_length (by omega)]

/-- The requests of a stream. -/
def requestFrames : Deframer UInt8 Bytes where
  next := nextRequest
  shrinks := length_nextRequest
  stable := nextRequest_append

/-- The deframer of requests takes one frame at a time. -/
@[simp] theorem next_requestFrames : requestFrames.next = nextRequest := rfl

/-- The bytes behind a size are taken off whole. -/
theorem next_sized {content : Bytes} (h : content.length < 2 ^ 31) (following : Bytes) :
    requestFrames.next (intBytes 4 content.length ++ content ++ following) =
      some (content, following) := by
  have hsize : sizeOf (intBytes 4 content.length ++ content ++ following) = content.length := by
    unfold sizeOf
    rw [List.append_assoc, List.take_left' (length_intBytes 4 _),
      bmod_ofBigEndian (by omega) (by omega)]
  rw [next_requestFrames, nextRequest_eq_some]
  refine ⟨⟨?_, ?_, ?_⟩, ?_, ?_⟩
  · simp only [List.length_append, length_intBytes]
    omega
  · rw [hsize]
    omega
  · rw [hsize]
    simp only [List.length_append, length_intBytes]
    omega
  · rw [hsize, List.append_assoc, List.drop_left' (length_intBytes 4 _), Int.toNat_natCast,
      List.take_left]
  · have hhead : (intBytes 4 content.length ++ content).length = 4 + content.length := by
      rw [List.length_append, length_intBytes]
    rw [hsize, Int.toNat_natCast, List.drop_left' hhead]

/-- The requests in a sequence of sized contents are these contents. -/
theorem drain_requests {α : Type} (items : List α) (content : α → Bytes)
    (h : ∀ item ∈ items, (content item).length < 2 ^ 31) :
    requestFrames.drain (items.flatMap fun item =>
      intBytes 4 (content item).length ++ content item) = (items.map content, []) := by
  induction items with
  | nil =>
      rw [List.flatMap_nil]
      exact Deframer.drain_of_none (by decide)
  | cons item items ih =>
      rw [List.flatMap_cons,
        Deframer.drain_of_some (next_sized (h item List.mem_cons_self) _),
        ih fun other hother => h other (List.mem_cons_of_mem item hother)]
      rfl

end KafkaJs.Network
