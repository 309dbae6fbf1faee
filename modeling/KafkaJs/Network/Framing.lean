import KafkaJs.Data.Deframing
import KafkaJs.Protocol.Primitives

/-!
# Framing of responses

`processData` of `network/connection.js` collects what a socket delivers until a whole response is
there: its size on 32 bits and as many bytes. The fields that it needs are those of `Framing`. A
response is handed to `fulfillRequest` or, while an authentication exchange waits for one, to the
handlers of that exchange; both are parameters here, and `fulfillRequest` may throw.

`responses` says what the responses in a stream are, independently of how it arrives. `Holds`
connects it with the fields, and `feed_eq` says that the pieces in which well-formed responses
arrive do not matter.
-/

namespace KafkaJs.Network

open KafkaJs.Data KafkaJs.Protocol

/-- The argument of `fulfillRequest`. -/
structure Fulfillment where
  correlationId : Int
  payload : Bytes
  size : Int
  deriving DecidableEq

/-- The fields of a connection that frame what it receives. `authHandlers` is whether the field is
set. -/
structure Framing where
  chunks : List Bytes
  bytesBuffered : Nat
  bytesNeeded : Int
  authHandlers : Bool
  authExpectResponse : Bool
  deriving DecidableEq

/-- `Decoder.int32Size()`. -/
def int32Size : Nat := 4

namespace Framing

/-- The fields as the constructor sets them. -/
def new : Framing := ⟨[], 0, int32Size, false, false⟩

/-- Both handlers of an authentication exchange reset the fields. -/
def resetAuth (framing : Framing) : Framing :=
  { framing with authHandlers := false, authExpectResponse := false }

/-- `sendAuthRequest` sets the handlers. -/
def expectAuth (expectResponse : Bool) (framing : Framing) : Framing :=
  { framing with authHandlers := true, authExpectResponse := expectResponse }

/-- The buffered chunks as one. -/
def buffer (framing : Framing) : Bytes :=
  if framing.chunks.length > 1 then framing.chunks.flatten else framing.chunks.headD []

/-- The error of reading from null. -/
def nullBuffer : KafkaError :=
  { name := .typeError, message := "Cannot read properties of null (reading 'readInt32BE')",
    retriable := none }

/-- A response of a given size and the rest of the buffer. -/
def readFrame (expectedResponseSize : Int) : Reader (Option Bytes × Bytes) := do
  let response ← Decoder.readBytesOf expectedResponseSize
  let remainderBuffer ← Decoder.readAll
  pure (response, remainderBuffer)

/-- The correlation id of a response and the bytes behind it. -/
def readResponse : Option Bytes → Except KafkaError (Int × Bytes)
  | none => .error nullBuffer
  | some response => do
      let (correlationId, decoder) ← Decoder.readInt32 (Decoder.new response)
      let (payload, _) ← decoder.readAll
      pure (correlationId, payload)

/-- What one round of the loop comes to. -/
inductive Round where
  /-- There are not enough bytes to read the full response. -/
  | incomplete (framing : Framing)
  /-- A raw response for the authentication exchange. -/
  | auth (framing : Framing) (rawResponse : Bytes)
  | response (framing : Framing) (fulfillment : Fulfillment)
  | failed (framing : Framing) (error : KafkaError)

/-- One round of the loop of `processData`. -/
def round (framing : Framing) : Round :=
  match Decoder.readInt32 (Decoder.new framing.buffer) with
  | .error error => .failed framing error
  | .ok (expectedResponseSize, decoder) =>
      if decoder.canReadBytes expectedResponseSize then
        match readFrame expectedResponseSize decoder with
        | .error error => .failed framing error
        | .ok ((response, remainderBuffer), _) =>
            let rawResponse := slice framing.buffer 0 (int32Size + expectedResponseSize)
            let framing := { framing with
              chunks := [remainderBuffer], bytesBuffered := remainderBuffer.length,
              bytesNeeded := int32Size }
            if framing.authHandlers then .auth framing rawResponse
            else
              match readResponse response with
              | .error error => .failed framing error
              | .ok (correlationId, payload) =>
                  .response framing ⟨correlationId, payload, expectedResponseSize⟩
      else
        .incomplete { framing with
          chunks := [framing.buffer], bytesBuffered := framing.buffer.length,
          bytesNeeded := int32Size + expectedResponseSize }

/-- Accumulate the new chunk. -/
def accumulate (rawData : Bytes) (framing : Framing) : Framing :=
  { framing with
    chunks := framing.chunks ++ [rawData]
    bytesBuffered := framing.bytesBuffered + rawData.length }

section Processing

variable {σ : Type} (fulfillRequest : Fulfillment → σ → σ × Option KafkaError)
  (onSuccess : Bytes → σ → σ)

/-- What `processData` leaves: the fields, what the handlers did, and the error it throws. -/
abbrev Processed (σ : Type) := Framing × σ × Option KafkaError

/-- The loop of `processData`, for a bounded number of rounds. -/
def processLoop : Nat → Framing → σ → Option (Processed σ)
  | 0, _, _ => none
  | fuel + 1, framing, state =>
      if framing.bytesNeeded ≤ framing.bytesBuffered then
        match framing.round with
        | .incomplete framing => some (framing, state, none)
        | .failed framing error => some (framing, state, some error)
        | .auth framing rawResponse =>
            some (framing.resetAuth, onSuccess rawResponse state, none)
        | .response framing fulfillment =>
            match fulfillRequest fulfillment state with
            | (state, some error) => some (framing, state, some error)
            | (state, none) => processLoop fuel framing state
      else some (framing, state, none)

/-- `processData`. Every response takes bytes off the buffer, which bounds the rounds. -/
def processData (framing : Framing) (rawData : Bytes) (state : σ) : Option (Processed σ) :=
  if framing.authHandlers ∧ ¬ framing.authExpectResponse then
    some (framing.resetAuth, onSuccess rawData state, none)
  else
    let framing := framing.accumulate rawData
    processLoop fulfillRequest onSuccess (framing.buffer.length + 1) framing state

end Processing

/-- A call of `fulfillRequest` is recorded. -/
def record (call : Fulfillment) (calls : List Fulfillment) :
    List Fulfillment × Option KafkaError :=
  (calls ++ [call], none)

/-- `processData` for every chunk in turn, with the calls of `fulfillRequest`; none if it throws. -/
def feed (framing : Framing) : List Bytes → List Fulfillment →
    Option (Framing × List Fulfillment)
  | [], calls => some (framing, calls)
  | chunk :: chunks, calls =>
      match processData record (fun _ calls => calls) framing chunk calls with
      | some (framing, calls, none) => feed framing chunks calls
      | _ => none

end Framing

/-! ## The responses of a stream -/

/-- The size in front of a response. -/
def sizeOf (buffer : Bytes) : Int := (ofBigEndian (buffer.take 4) : Int).bmod (256 ^ 4)

/-- The correlation id of a response behind its size. -/
def idOf (buffer : Bytes) : Int := (ofBigEndian ((buffer.drop 4).take 4) : Int).bmod (256 ^ 4)

/-- The first response of a buffer, and the bytes behind it. -/
def nextResponse (buffer : Bytes) : Option (Fulfillment × Bytes) :=
  if 4 ≤ buffer.length ∧ 4 ≤ sizeOf buffer ∧ 4 + sizeOf buffer ≤ buffer.length then
    some (⟨idOf buffer, (buffer.drop 8).take ((sizeOf buffer).toNat - 4), sizeOf buffer⟩,
      buffer.drop (4 + (sizeOf buffer).toNat))
  else none

/-- Once four bytes are there, the size does not depend on what follows. -/
theorem sizeOf_append {buffer : Bytes} (h : 4 ≤ buffer.length) (more : Bytes) :
    sizeOf (buffer ++ more) = sizeOf buffer := by
  unfold sizeOf
  rw [List.take_append_of_le_length h]

/-- Once eight bytes are there, the correlation id does not depend on what follows. -/
theorem idOf_append {buffer : Bytes} (h : 8 ≤ buffer.length) (more : Bytes) :
    idOf (buffer ++ more) = idOf buffer := by
  unfold idOf
  rw [List.drop_append_of_le_length (by omega),
    List.take_append_of_le_length (by rw [List.length_drop]; omega)]

/-- What it takes for a buffer to begin with a whole response. -/
theorem nextResponse_eq_some {buffer rest : Bytes} {call : Fulfillment} :
    nextResponse buffer = some (call, rest) ↔
      (4 ≤ buffer.length ∧ 4 ≤ sizeOf buffer ∧ 4 + sizeOf buffer ≤ buffer.length) ∧
        call = ⟨idOf buffer, (buffer.drop 8).take ((sizeOf buffer).toNat - 4), sizeOf buffer⟩ ∧
        rest = buffer.drop (4 + (sizeOf buffer).toNat) := by
  rw [nextResponse, Option.ite_none_right_eq_some, Option.some.injEq, Prod.mk.injEq,
    @eq_comm _ _ call, @eq_comm _ _ rest]

/-- The responses of a stream. -/
def responses : Deframer UInt8 Fulfillment where
  next := nextResponse
  shrinks := by
    intro buffer call rest h
    obtain ⟨hwhole, -, hrest⟩ := nextResponse_eq_some.mp h
    rw [hrest, List.length_drop]
    omega
  stable := by
    intro buffer call rest more h
    obtain ⟨⟨hlength, hsize, hroom⟩, hcall, hrest⟩ := nextResponse_eq_some.mp h
    refine nextResponse_eq_some.mpr ⟨⟨?_, ?_, ?_⟩, ?_, ?_⟩
    · rw [List.length_append]
      omega
    · exact hsize.trans_eq (sizeOf_append hlength more).symm
    · rw [sizeOf_append hlength, List.length_append]
      omega
    · rw [hcall, sizeOf_append hlength, idOf_append (by omega),
        List.drop_append_of_le_length (by omega),
        List.take_append_of_le_length (by rw [List.length_drop]; omega)]
    · rw [hrest, sizeOf_append hlength, List.drop_append_of_le_length (by omega)]

/-- The deframer of responses takes off one response. -/
@[simp] theorem next_responses : responses.next = nextResponse := rfl

/-! ## Every chunk is processed -/

namespace Framing

/-- However many chunks there are. -/
theorem buffer_eq (framing : Framing) : framing.buffer = framing.chunks.flatten := by
  unfold buffer
  split
  · rfl
  · next h =>
      match hchunks : framing.chunks with
      | [] => rfl
      | [chunk] => simp
      | _ :: _ :: _ => simp [hchunks] at h

/-- The length of a slice. -/
theorem length_slice (buffer : Bytes) (start stop : Int) :
    (slice buffer start stop).length =
      min (sliceIndex buffer.length stop - sliceIndex buffer.length start)
        (buffer.length - sliceIndex buffer.length start) := by
  rw [slice, List.length_take, List.length_drop]

/-- The rest of the buffer begins where the response ends, so that it is shorter than the buffer if
the response has any bytes. -/
theorem length_of_readFrame {expectedResponseSize : Int} {decoder after : Decoder}
    {response remainder : Bytes} (hpositive : response ≠ [])
    (h : readFrame expectedResponseSize decoder = .ok ((some response, remainder), after)) :
    remainder.length < decoder.buffer.length := by
  by_cases hnull : expectedResponseSize = -1
  · rw [readFrame, Decoder.readBytesOf, if_pos hnull] at h
    cases h
  · rw [readFrame, Decoder.readBytesOf, if_neg hnull] at h
    cases h
    have hlength := List.length_pos_iff.mpr hpositive
    show (slice decoder.buffer (decoder.offset + expectedResponseSize) decoder.buffer.length).length <
      decoder.buffer.length
    rw [length_slice] at hlength ⊢
    omega

/-- Reading an integer leaves the buffer alone. -/
theorem buffer_of_readInt {width : Nat} {decoder after : Decoder} {value : Int}
    (h : Decoder.readInt width decoder = .ok (value, after)) : after.buffer = decoder.buffer := by
  rw [Decoder.readInt] at h
  split at h
  · cases h
  · cases h
    rfl

/-- A response that is read has bytes. -/
theorem length_of_readResponse {response : Option Bytes} {correlationId : Int} {payload : Bytes}
    (h : readResponse response = .ok (correlationId, payload)) :
    ∃ bytes, response = some bytes ∧ bytes ≠ [] := by
  cases response with
  | none => cases h
  | some bytes =>
      refine ⟨bytes, rfl, ?_⟩
      rintro rfl
      cases h

/-- A response whose correlation id is there takes bytes off the buffer, whatever its size says. -/
theorem length_of_round {framing after : Framing} {call : Fulfillment}
    (h : framing.round = .response after call) : after.buffer.length < framing.buffer.length := by
  rw [round] at h
  split at h
  · cases h
  · next expectedResponseSize decoder hsize =>
      have hbuffer : decoder.buffer = framing.buffer := buffer_of_readInt hsize
      split at h
      · split at h
        · cases h
        · next response remainder last hframe =>
            dsimp only at h
            split at h
            · cases h
            · split at h
              · cases h
              · next correlationId payload hresponse =>
                  obtain ⟨bytes, rfl, hpositive⟩ := length_of_readResponse hresponse
                  have hshorter := length_of_readFrame hpositive hframe
                  cases h
                  rw [buffer_eq]
                  show (remainder ++ []).length < _
                  rwa [List.append_nil, ← hbuffer]
      · cases h

variable {σ : Type} (fulfillRequest : Fulfillment → σ → σ × Option KafkaError)
  (onSuccess : Bytes → σ → σ)

/-- The loop ends with more fuel than there are bytes. -/
theorem processLoop_isSome {fuel : Nat} {framing : Framing} (state : σ)
    (hfuel : framing.buffer.length < fuel) :
    (processLoop fulfillRequest onSuccess fuel framing state).isSome := by
  induction fuel generalizing framing state with
  | zero => omega
  | succ fuel ih =>
      rw [processLoop]
      split
      · cases hround : framing.round with
        | incomplete after => rfl
        | failed after error => rfl
        | auth after rawResponse => rfl
        | response after call =>
            have hshorter := length_of_round hround
            rcases hfulfill : fulfillRequest call state with ⟨next, _ | error⟩
            · simp only [hfulfill]
              exact ih next (by omega)
            · simp only [hfulfill]
              rfl
      · rfl

/-- `processData` returns or throws on every chunk, in every state. -/
theorem processData_isSome (framing : Framing) (rawData : Bytes) (state : σ) :
    (processData fulfillRequest onSuccess framing rawData state).isSome := by
  rw [processData]
  split
  · rfl
  · exact processLoop_isSome fulfillRequest onSuccess state (Nat.lt_succ_self _)

end Framing

/-! ## What the chunks are -/

namespace Framing

/-- The fields hold the same bytes, however these are divided into chunks. -/
structure Same (framing other : Framing) : Prop where
  chunks : framing.chunks.flatten = other.chunks.flatten
  bytesBuffered : framing.bytesBuffered = other.bytesBuffered
  bytesNeeded : framing.bytesNeeded = other.bytesNeeded
  authHandlers : framing.authHandlers = other.authHandlers
  authExpectResponse : framing.authExpectResponse = other.authExpectResponse

/-- `Same` is decidable by comparing the fields. -/
instance (framing other : Framing) : Decidable (Same framing other) :=
  decidable_of_iff (framing.chunks.flatten = other.chunks.flatten ∧
      framing.bytesBuffered = other.bytesBuffered ∧ framing.bytesNeeded = other.bytesNeeded ∧
      framing.authHandlers = other.authHandlers ∧
      framing.authExpectResponse = other.authExpectResponse)
    ⟨fun ⟨hchunks, hbuffered, hneeded, hhandlers, hexpect⟩ =>
        ⟨hchunks, hbuffered, hneeded, hhandlers, hexpect⟩,
      fun ⟨hchunks, hbuffered, hneeded, hhandlers, hexpect⟩ =>
        ⟨hchunks, hbuffered, hneeded, hhandlers, hexpect⟩⟩

namespace Same

variable {framing other third : Framing}

/-- Every framing is the same as itself. -/
theorem refl (framing : Framing) : Same framing framing := ⟨rfl, rfl, rfl, rfl, rfl⟩

/-- If two framings hold the same bytes, so do they the other way around. -/
theorem symm (h : Same framing other) : Same other framing :=
  ⟨h.chunks.symm, h.bytesBuffered.symm, h.bytesNeeded.symm, h.authHandlers.symm,
    h.authExpectResponse.symm⟩

/-- Holding the same bytes is transitive. -/
theorem trans (h : Same framing other) (hother : Same other third) : Same framing third :=
  ⟨h.chunks.trans hother.chunks, h.bytesBuffered.trans hother.bytesBuffered,
    h.bytesNeeded.trans hother.bytesNeeded, h.authHandlers.trans hother.authHandlers,
    h.authExpectResponse.trans hother.authExpectResponse⟩

/-- Framings that hold the same bytes, after the authentication is reset. -/
theorem resetAuth (h : Same framing other) : Same framing.resetAuth other.resetAuth :=
  ⟨h.chunks, h.bytesBuffered, h.bytesNeeded, rfl, rfl⟩

/-- Framings that hold the same bytes, when an authentication response is expected. -/
theorem expectAuth (h : Same framing other) (expectResponse : Bool) :
    Same (framing.expectAuth expectResponse) (other.expectAuth expectResponse) :=
  ⟨h.chunks, h.bytesBuffered, h.bytesNeeded, rfl, rfl⟩

/-- Framings that hold the same bytes, with another chunk. -/
theorem accumulate (h : Same framing other) (rawData : Bytes) :
    Same (framing.accumulate rawData) (other.accumulate rawData) := by
  refine ⟨?_, congrArg (· + rawData.length) h.bytesBuffered, h.bytesNeeded, h.authHandlers,
    h.authExpectResponse⟩
  show (framing.chunks ++ [rawData]).flatten = (other.chunks ++ [rawData]).flatten
  rw [List.flatten_concat, List.flatten_concat, h.chunks]

/-- Framings that hold the same bytes have the same buffer. -/
theorem buffer_eq (h : Same framing other) : framing.buffer = other.buffer := by
  rw [framing.buffer_eq, other.buffer_eq, h.chunks]

end Same

/-- A round replaces the chunks, so that it comes to the same unless it fails before that. -/
theorem round_same {framing other : Framing} (h : Same framing other) :
    framing.round = other.round ∨
      ∃ error, framing.round = .failed framing error ∧ other.round = .failed other error := by
  obtain ⟨chunks, bytesBuffered, bytesNeeded, authHandlers, authExpectResponse⟩ := framing
  obtain ⟨-, rfl, rfl, rfl, rfl⟩ := id h
  unfold round
  rw [h.buffer_eq]
  cases Decoder.readInt32 (Decoder.new other.buffer) with
  | error error => exact Or.inr ⟨error, rfl, rfl⟩
  | ok value =>
      dsimp only
      split
      · cases readFrame value.1 value.2 with
        | error error => exact Or.inr ⟨error, rfl, rfl⟩
        | ok frame => exact Or.inl rfl
      · exact Or.inl rfl

variable {σ : Type} (fulfillRequest : Fulfillment → σ → σ × Option KafkaError)
  (onSuccess : Bytes → σ → σ)

/-- The loop does the same on framings that hold the same bytes. -/
theorem processLoop_same {framing other : Framing} {fuel : Nat} (h : Same framing other)
    (hfuel : framing.buffer.length < fuel) (state : σ) :
    ∃ after after' next error,
      processLoop fulfillRequest onSuccess fuel framing state = some (after, next, error) ∧
      processLoop fulfillRequest onSuccess fuel other state = some (after', next, error) ∧
      Same after after' := by
  obtain ⟨fuel, rfl⟩ := Nat.exists_eq_succ_of_ne_zero (Nat.ne_zero_of_lt hfuel)
  have hsome := processLoop_isSome fulfillRequest onSuccess state hfuel
  by_cases henough : framing.bytesNeeded ≤ framing.bytesBuffered
  · have henough' : other.bytesNeeded ≤ other.bytesBuffered := by
      rwa [← h.bytesNeeded, ← h.bytesBuffered]
    rcases round_same h with hround | ⟨error, hround, hround'⟩
    · have heq : processLoop fulfillRequest onSuccess (fuel + 1) framing state =
          processLoop fulfillRequest onSuccess (fuel + 1) other state := by
        rw [processLoop, processLoop, if_pos henough, if_pos henough', hround]
      obtain ⟨⟨after, next, error⟩, hafter⟩ := Option.isSome_iff_exists.mp hsome
      exact ⟨after, after, next, error, hafter, heq ▸ hafter, Same.refl after⟩
    · rw [processLoop, processLoop, if_pos henough, if_pos henough', hround, hround']
      exact ⟨_, _, _, _, rfl, rfl, h⟩
  · have henough' : ¬ other.bytesNeeded ≤ other.bytesBuffered := by
      rwa [← h.bytesNeeded, ← h.bytesBuffered]
    rw [processLoop, processLoop, if_neg henough, if_neg henough']
    exact ⟨_, _, _, _, rfl, rfl, h⟩

/-- How the bytes are divided into chunks does not matter for what comes next. -/
theorem processData_same {framing other : Framing} (h : Same framing other) (rawData : Bytes)
    (state : σ) :
    ∃ after after' next error,
      processData fulfillRequest onSuccess framing rawData state = some (after, next, error) ∧
      processData fulfillRequest onSuccess other rawData state = some (after', next, error) ∧
      Same after after' := by
  have haccumulate := h.accumulate rawData
  rw [processData, processData, h.authHandlers, h.authExpectResponse]
  split
  · exact ⟨_, _, _, _, rfl, rfl, h.resetAuth⟩
  · dsimp only
    rw [← haccumulate.buffer_eq]
    exact processLoop_same fulfillRequest onSuccess haccumulate (Nat.lt_succ_self _) state

end Framing

/-! ## The fields and the stream -/

/-- A slice between two places of the buffer. -/
theorem slice_of_le {buffer : Bytes} {start stop : Nat} (h : stop ≤ buffer.length)
    (hle : start ≤ stop) :
    slice buffer (start : Int) (stop : Int) = (buffer.drop start).take (stop - start) := by
  rw [slice, sliceIndex, sliceIndex, if_neg (by omega), if_neg (by omega), Int.toNat_natCast,
    Int.toNat_natCast, Nat.min_eq_left h, Nat.min_eq_left (hle.trans h)]

namespace Framing

variable {framing : Framing} {call : Fulfillment} {rest : Bytes}

/-- The size is read from the first four bytes. -/
theorem readInt32_new {buffer : Bytes} (h : 4 ≤ buffer.length) :
    Decoder.readInt32 (Decoder.new buffer) = .ok (sizeOf buffer, ⟨buffer, 4⟩) := by
  have hroom : ¬ ((0 : Int) < 0 ∨ (buffer.length : Int) < 0 + (4 : Nat)) := by omega
  exact if_neg hroom

/-- A response of which bytes are missing waits. -/
theorem round_incomplete (h : 4 ≤ framing.buffer.length)
    (hroom : (framing.buffer.length : Int) < 4 + sizeOf framing.buffer) :
    framing.round = .incomplete { framing with
      chunks := [framing.buffer], bytesBuffered := framing.buffer.length,
      bytesNeeded := int32Size + sizeOf framing.buffer } := by
  obtain ⟨size, hsize⟩ : ∃ size, sizeOf framing.buffer = size := ⟨_, rfl⟩
  rw [hsize] at hroom
  have hcan : ¬ Decoder.canReadBytes size ⟨framing.buffer, 4⟩ = true := by
    simp only [Decoder.canReadBytes, decide_eq_true_eq]
    omega
  rw [round, readInt32_new h, hsize]
  exact if_neg hcan

/-- A whole frame is read, and the rest is what follows it. -/
theorem readFrame_eq {buffer : Bytes} {size : Nat} (h : 4 + size ≤ buffer.length) :
    readFrame size ⟨buffer, 4⟩ = .ok ((some ((buffer.drop 4).take size), buffer.drop (4 + size)),
      ⟨buffer, (4 + size : Nat) + buffer.length⟩) := by
  have hbytes : Decoder.readBytesOf size ⟨buffer, 4⟩ =
      .ok (some ((buffer.drop 4).take size), ⟨buffer, (4 + size : Nat)⟩) := by
    rw [Decoder.readBytesOf, if_neg (by omega)]
    show Except.ok (some (slice buffer (4 : Nat) ((4 + size : Nat) : Int)), _) = _
    rw [slice_of_le h (by omega), Nat.add_sub_cancel_left]
    rfl
  show (Decoder.readBytesOf (size : Int) ⟨buffer, 4⟩ >>= fun pair => _) = _
  rw [hbytes]
  show Except.ok ((_, slice buffer _ _), _) = _
  rw [slice_of_le le_rfl h, ← List.length_drop, List.take_length]

/-- The correlation id and the payload of a response. -/
theorem readResponse_some {response : Bytes} (h : 4 ≤ response.length) :
    readResponse (some response) = .ok (sizeOf response, response.drop 4) := by
  rw [readResponse, readInt32_new h]
  show Except.ok (_, slice response (4 : Nat) response.length) = _
  rw [slice_of_le le_rfl h, ← List.length_drop, List.take_length]

/-- A whole response is taken off the buffer. -/
theorem round_response (h : nextResponse framing.buffer = some (call, rest))
    (hauth : framing.authHandlers = false) :
    framing.round = .response { framing with
      chunks := [rest], bytesBuffered := rest.length, bytesNeeded := int32Size } call := by
  obtain ⟨⟨hlength, hsize, hroom⟩, hcall, hrest⟩ := nextResponse_eq_some.mp h
  obtain ⟨size, hnat⟩ := Int.eq_ofNat_of_zero_le (by omega : 0 ≤ sizeOf framing.buffer)
  rw [hnat] at hsize hroom hcall hrest
  have hid : sizeOf ((framing.buffer.drop 4).take size) = idOf framing.buffer := by
    unfold sizeOf idOf
    rw [List.take_take, Nat.min_eq_left (by omega)]
  have hread : readResponse (some ((framing.buffer.drop 4).take size)) =
      .ok (idOf framing.buffer, (framing.buffer.drop 8).take (size - 4)) := by
    rw [readResponse_some (by rw [List.length_take, List.length_drop]; omega), hid,
      List.drop_take, List.drop_drop]
  rw [round, readInt32_new hlength, hnat]
  dsimp only
  rw [if_pos, readFrame_eq (by omega), hcall, hrest]
  · dsimp only
    rw [hauth, if_neg Bool.false_ne_true, hread]
    rfl
  · simp only [Decoder.canReadBytes, decide_eq_true_eq]
    omega

end Framing

/-- The bytes that have to be there for the response at the front of a buffer. -/
def needed (buffer : Bytes) : Int := if buffer.length < 4 then 4 else 4 + sizeOf buffer

/-- If a size is there, it covers a correlation id. -/
def Sound (buffer : Bytes) : Prop := 4 ≤ buffer.length → 4 ≤ sizeOf buffer

namespace Framing

/-- No authentication exchange is in progress, and the fields hold the bytes of an incomplete
response. -/
structure Holds (framing : Framing) (buffer : Bytes) : Prop where
  chunks : framing.chunks.flatten = buffer
  bytesBuffered : framing.bytesBuffered = buffer.length
  bytesNeeded : framing.bytesNeeded = needed buffer
  authHandlers : framing.authHandlers = false

/-- A new framing holds no bytes. -/
theorem holds_new : Holds new [] := ⟨rfl, rfl, rfl, rfl⟩

section Loop

variable {σ : Type} (handle : Fulfillment → σ → σ) (onSuccess : Bytes → σ → σ)

/-- The loop hands over the responses of the buffer and keeps what is left over. The induction is
on the responses; a round takes one off or ends the loop. -/
theorem processLoop_eq {buffer : Bytes} {framing : Framing} {fuel : Nat} {state : σ}
    (hfuel : buffer.length < fuel) (hsound : Sound (responses.drain buffer).2)
    (hchunks : framing.chunks.flatten = buffer) (hbuffered : framing.bytesBuffered = buffer.length)
    (hneeded : framing.bytesNeeded = 4 ∨ framing.bytesNeeded = needed buffer)
    (hauth : framing.authHandlers = false) :
    ∃ after, processLoop (fun call state => (handle call state, none)) onSuccess fuel framing state =
        some (after, (responses.drain buffer).1.foldl (fun state call => handle call state) state,
          none) ∧
      Holds after (responses.drain buffer).2 := by
  have hbuffer : framing.buffer = buffer := framing.buffer_eq.trans hchunks
  obtain ⟨fuel, rfl⟩ := Nat.exists_eq_succ_of_ne_zero (Nat.ne_zero_of_lt hfuel)
  induction buffer using Deframer.drain.induct responses generalizing framing fuel state with
  | case1 buffer hnone =>
      rw [Deframer.drain_of_none hnone] at hsound ⊢
      by_cases henough : framing.bytesNeeded ≤ framing.bytesBuffered
      · -- the size is there, but not the whole response
        have hlength : 4 ≤ buffer.length := by
          unfold needed at hneeded
          split at hneeded <;> omega
        have hroom : (buffer.length : Int) < 4 + sizeOf buffer := by
          have hsize := hsound hlength
          by_contra hroom
          have hwhole := nextResponse_eq_some.mpr ⟨⟨hlength, hsize, by omega⟩, rfl, rfl⟩
          cases hnone.symm.trans hwhole
        have hround := @round_incomplete framing (by rwa [hbuffer]) (by rwa [hbuffer])
        rw [processLoop, if_pos henough, hround, hbuffer]
        refine ⟨_, rfl, ⟨List.append_nil buffer, rfl, ?_, hauth⟩⟩
        show _ = needed buffer
        rw [needed, if_neg (by omega)]
        rfl
      · rw [processLoop, if_neg henough]
        refine ⟨framing, rfl, hchunks, hbuffered, ?_, hauth⟩
        show _ = needed buffer
        rcases hneeded with hneeded | hneeded
        · rw [needed, if_pos (by omega), hneeded]
        · exact hneeded
  | case2 buffer call rest hsome hshorter ih =>
      obtain ⟨⟨hlength, hsize, hroom⟩, -, -⟩ := nextResponse_eq_some.mp hsome
      have henough : framing.bytesNeeded ≤ framing.bytesBuffered := by
        unfold needed at hneeded
        split at hneeded <;> omega
      have hround := @round_response framing call rest (by rw [hbuffer]; exact hsome) hauth
      rw [Deframer.drain_of_some hsome] at hsound ⊢
      rw [processLoop, if_pos henough, hround]
      obtain ⟨fuel, rfl⟩ := Nat.exists_eq_succ_of_ne_zero (by omega : fuel ≠ 0)
      have hrest : [rest].flatten = rest := List.append_nil rest
      exact @ih ⟨[rest], rest.length, int32Size, framing.authHandlers, framing.authExpectResponse⟩
        (handle call state) hsound hrest rfl (Or.inl rfl) hauth ((buffer_eq _).trans hrest) fuel
        (by omega)

/-- A chunk, while no authentication exchange is in progress. -/
theorem processData_eq {framing : Framing} {buffer chunk : Bytes} (state : σ)
    (h : Holds framing buffer) (hsound : Sound (responses.drain (buffer ++ chunk)).2) :
    ∃ after, processData (fun call state => (handle call state, none)) onSuccess framing chunk
        state = some (after, (responses.drain (buffer ++ chunk)).1.foldl
          (fun state call => handle call state) state, none) ∧
      Holds after (responses.drain (buffer ++ chunk)).2 := by
  have hnone : ¬ (framing.authHandlers = true ∧ ¬ framing.authExpectResponse = true) := by
    simp [h.authHandlers]
  rw [processData, if_neg hnone]
  refine processLoop_eq handle onSuccess ?_ hsound ?_ ?_ ?_ h.authHandlers
  · rw [buffer_eq]
    show _ < (framing.chunks ++ [chunk]).flatten.length + 1
    rw [List.flatten_concat, h.chunks]
    exact Nat.lt_succ_self _
  · show (framing.chunks ++ [chunk]).flatten = _
    rw [List.flatten_concat, h.chunks]
  · show framing.bytesBuffered + chunk.length = _
    rw [List.length_append, h.bytesBuffered]
  · show framing.bytesNeeded = 4 ∨ framing.bytesNeeded = _
    rw [h.bytesNeeded, needed, needed]
    split
    · exact Or.inl rfl
    · next hlength =>
        right
        rw [if_neg (by rw [List.length_append]; omega), sizeOf_append (by omega)]

end Loop

/-- A stream that ends behind a response is sound on the way. -/
theorem sound_of_drain_eq_nil {buffer more : Bytes}
    (h : (responses.drain (buffer ++ more)).2 = []) : Sound (responses.drain buffer).2 := by
  intro hlength
  by_contra hsize
  -- no bytes can complete a response of such a size
  have hstuck : responses.next ((responses.drain buffer).2 ++ more) = none := by
    by_contra hsome
    obtain ⟨⟨call, rest⟩, hsome⟩ := Option.ne_none_iff_exists'.mp hsome
    obtain ⟨⟨-, hsize', -⟩, -⟩ := nextResponse_eq_some.mp hsome
    rw [sizeOf_append hlength] at hsize'
    exact hsize hsize'
  rw [Deframer.drain_append, Deframer.drain_of_none hstuck] at h
  have hnil : (responses.drain buffer).2 = [] := (List.append_eq_nil_iff.mp h).1
  rw [hnil] at hlength
  exact absurd hlength (by decide)

/-- Recording calls one after the other appends them. -/
theorem foldl_record (calls others : List Fulfillment) :
    others.foldl (fun calls call => calls ++ [call]) calls = calls ++ others := by
  induction others generalizing calls with
  | nil => exact (List.append_nil calls).symm
  | cons call others ih => rw [List.foldl_cons, ih, List.append_assoc, List.singleton_append]

/-- However well-formed responses are cut into pieces, the calls are those for the whole stream, and
nothing is left over behind its last response. -/
theorem feed_eq {framing : Framing} {buffer : Bytes} {chunks : List Bytes}
    {calls : List Fulfillment} (h : Holds framing buffer) (hnone : responses.next buffer = none)
    (hend : (responses.drain (buffer ++ chunks.flatten)).2 = []) :
    ∃ after, framing.feed chunks calls =
        some (after, calls ++ (responses.drain (buffer ++ chunks.flatten)).1) ∧ Holds after [] := by
  induction chunks generalizing framing buffer calls with
  | nil =>
      rw [List.flatten_nil, List.append_nil, Deframer.drain_of_none hnone] at hend ⊢
      have hempty : buffer = [] := hend
      subst hempty
      exact ⟨framing, by rw [List.append_nil]; rfl, h⟩
  | cons chunk chunks ih =>
      rw [List.flatten_cons, ← List.append_assoc] at hend ⊢
      obtain ⟨after, hprocess, hafter⟩ := processData_eq (fun call calls => calls ++ [call])
        (fun _ calls => calls) calls h (sound_of_drain_eq_nil hend)
      rw [foldl_record] at hprocess
      rw [Deframer.drain_append] at hend ⊢
      obtain ⟨last, hfeed, hlast⟩ := @ih after _ (calls ++ (responses.drain (buffer ++ chunk)).1)
        hafter (Deframer.next_drain _) hend
      refine ⟨last, ?_, hlast⟩
      rw [feed]
      show (match processData (fun call calls => (calls ++ [call], none)) _ framing chunk calls with
        | some (framing, calls, none) => feed framing chunks calls
        | _ => none) = _
      rw [hprocess, ← List.append_assoc]
      exact hfeed

end Framing

/-! ## Well-formed responses -/

/-- A response as it stands in the stream: its size, its correlation id and its payload. -/
structure ResponseFrame where
  correlationId : Int
  payload : Bytes
  fits : FitsInt 4 correlationId
  length : 4 + payload.length < 2 ^ 31

namespace ResponseFrame

/-- The size of a response. -/
def size (frame : ResponseFrame) : Int := 4 + frame.payload.length

/-- The bytes of a response. -/
def bytes (frame : ResponseFrame) : Bytes :=
  intBytes 4 frame.size ++ (intBytes 4 frame.correlationId ++ frame.payload)

/-- The call that a response causes. -/
def call (frame : ResponseFrame) : Fulfillment := ⟨frame.correlationId, frame.payload, frame.size⟩

/-- A frame is taken off whatever follows it. -/
theorem next_bytes (frame : ResponseFrame) (following : Bytes) :
    responses.next (frame.bytes ++ following) = some (frame.call, following) := by
  have hlength := frame.length
  obtain ⟨hlower, hupper⟩ := frame.fits
  have hsize : sizeOf (frame.bytes ++ following) = frame.size := by
    unfold sizeOf
    rw [bytes, List.append_assoc, List.take_left' (length_intBytes 4 _),
      bmod_ofBigEndian (by rw [size]; omega) (by rw [size]; omega)]
  have hid : idOf (frame.bytes ++ following) = frame.correlationId := by
    unfold idOf
    rw [bytes, List.append_assoc, List.drop_left' (length_intBytes 4 _), List.append_assoc,
      List.take_left' (length_intBytes 4 _), bmod_ofBigEndian hlower hupper]
  have htotal : (frame.bytes ++ following).length = 8 + frame.payload.length + following.length := by
    simp only [bytes, List.length_append, length_intBytes]
    omega
  have hdrop : (frame.bytes ++ following).drop 8 = frame.payload ++ following := by
    have hhead : (intBytes 4 frame.size ++ intBytes 4 frame.correlationId).length = 8 := by
      rw [List.length_append, length_intBytes, length_intBytes]
    rw [bytes, ← List.append_assoc (intBytes 4 frame.size), List.append_assoc _ frame.payload,
      List.drop_left' hhead]
  rw [next_responses, nextResponse_eq_some]
  refine ⟨⟨?_, ?_, ?_⟩, ?_, ?_⟩
  · omega
  · rw [hsize, size]
    omega
  · rw [hsize, size, htotal]
    omega
  · rw [hsize, hid, hdrop, size, List.take_left' (by omega)]
    rfl
  · rw [hsize, size, show 4 + (4 + (frame.payload.length : Int)).toNat = 8 + frame.payload.length by
      omega, ← List.drop_drop, hdrop, List.drop_left]

/-- The responses in a sequence of frames are the frames. -/
theorem drain_frames (frames : List ResponseFrame) :
    responses.drain (frames.flatMap bytes) = (frames.map call, []) := by
  induction frames with
  | nil => exact Deframer.drain_of_none (by decide)
  | cons frame frames ih =>
      rw [List.flatMap_cons, Deframer.drain_of_some (frame.next_bytes _), ih]
      rfl

end ResponseFrame

/-- However the bytes of well-formed responses are cut into chunks, the calls are the same as when
every response is a chunk of its own, and nothing stays buffered. -/
theorem feed_chunks {framing : Framing} (hempty : framing.Holds []) (frames : List ResponseFrame)
    (chunks : List Bytes) (h : chunks.flatten = frames.flatMap ResponseFrame.bytes) :
    ∃ calls after whole,
      framing.feed chunks [] = some (after, calls) ∧
      framing.feed (frames.map ResponseFrame.bytes) [] = some (whole, calls) ∧
      calls = frames.map ResponseFrame.call ∧ after.Holds [] ∧ whole.Holds [] := by
  -- the calls depend on the concatenation of the chunks alone
  have hfeed : ∀ pieces : List Bytes, pieces.flatten = frames.flatMap ResponseFrame.bytes →
      ∃ after, framing.feed pieces [] = some (after, frames.map ResponseFrame.call) ∧
        after.Holds [] := by
    intro pieces hpieces
    have hdrain : responses.drain ([] ++ pieces.flatten) = (frames.map ResponseFrame.call, []) := by
      rw [List.nil_append, hpieces, ResponseFrame.drain_frames]
    have hnone : responses.next [] = none := by decide
    obtain ⟨after, hafter, hholds⟩ := @Framing.feed_eq _ _ pieces [] hempty hnone (by rw [hdrain])
    rw [hdrain] at hafter
    exact ⟨after, hafter, hholds⟩
  obtain ⟨after, hafter, hholds⟩ := hfeed chunks h
  obtain ⟨whole, hwhole, hwholes⟩ := hfeed (frames.map ResponseFrame.bytes)
    (List.flatMap_def ..).symm
  exact ⟨_, after, whole, hafter, hwhole, rfl, hholds, hwholes⟩

/-- A response with a payload of two bytes and one without a payload. -/
def sampleFrames : List ResponseFrame :=
  [⟨7, [1, 2], by decide, by decide⟩, ⟨8, [], by decide, by decide⟩]

/-- The two responses, cut in both sizes and in a correlation id. -/
theorem feed_chunks_pieces :
    ∃ calls after whole,
      Framing.new.feed [[0, 0], [0, 6, 0, 0, 0], [], [7, 1, 2, 0, 0, 0, 4, 0], [0, 0, 8]] [] =
        some (after, calls) ∧
      Framing.new.feed (sampleFrames.map ResponseFrame.bytes) [] = some (whole, calls) ∧
      calls = sampleFrames.map ResponseFrame.call ∧ after.Holds [] ∧ whole.Holds [] :=
  feed_chunks Framing.holds_new sampleFrames _ (by decide)

end KafkaJs.Network
