import KafkaJs.Network.Connection
import KafkaJs.Network.RequestFrames
import KafkaJs.Network.ResponseMatching
import Mathlib.Data.List.Perm.Basic

/-!
# One connection, many requests

The requests of a connection and the responses of its broker, between the calls of `send` and the
bytes on a socket that stays open. A call takes the next correlation id, waits for `createRequest`
and pushes its request. The broker reads requests off the bytes that have been written, in what
portions they may come, and writes responses in any order. These arrive in chunks of any size, which
`processData` puts together and hands to `fulfillRequest`.

`multiplexes_of_run` says what the callers get: the other side reads the requests that were pushed
in the order in which they were written, a request is resolved with a response that the broker has
written for this very request, and a request whose response has arrived is settled.
-/

namespace KafkaJs.Network

open KafkaJs.Data KafkaJs.Execution KafkaJs.Protocol

/-- A request that is passed to `send`, and what its `encode` returns. -/
structure EncodedRequest where
  request : ProtocolRequest
  payload : Encoder

/-- A request that has been pushed, with its correlation id and the bytes that its `sendRequest`
writes. -/
structure PushedBytes where
  correlationId : Int
  encoded : EncodedRequest
  bytes : Bytes

/-- A connection with a socket and the broker at its other end. `encoding` are the calls of `send`
that wait for `createRequest`, `pushed` the requests by their numbers in the queue. `answers` are
the responses that the broker has written, each with the position of its request among those that
the broker has read, and `arrived` is how many of their bytes have been processed. -/
structure Conversation where
  clientId : Option Text
  correlationId : Int
  encoding : List (Int × EncodedRequest)
  requestQueue : RequestQueue
  framing : Framing
  pushed : List PushedBytes
  answers : List (Nat × ResponseFrame)
  arrived : Nat

namespace Conversation

/-- A connection that has just been opened. -/
def new (clientId : Option Text) (maxInFlightRequests : Option Nat) (requestTimeout : Int)
    (enforceRequestTimeout : Bool) : Conversation :=
  { clientId, correlationId := 0, encoding := [],
    requestQueue := .new maxInFlightRequests requestTimeout enforceRequestTimeout,
    framing := .new, pushed := [], answers := [], arrived := 0 }

/-- `nextCorrelationId`: the id and the conversation afterwards. -/
def nextCorrelationId (conversation : Conversation) : Int × Conversation :=
  let id := if int32MaxValue ≤ conversation.correlationId then 0 else conversation.correlationId
  (id, { conversation with correlationId := id + 1 })

/-- The header that `createRequest` gets. -/
def header (conversation : Conversation) (correlationId : Int) (request : ProtocolRequest) :
    RequestHeader :=
  { apiKey := request.apiKey, apiVersion := request.apiVersion, correlationId,
    clientId := conversation.clientId }

/-- The bytes that the `sendRequest` of a request writes. -/
def bytesOf (conversation : Conversation) (ref : Nat) : Bytes :=
  match conversation.pushed[ref]? with
  | some pushed => pushed.bytes
  | none => []

/-- The bytes that have been written to the socket. -/
def outgoing (conversation : Conversation) : Bytes :=
  conversation.requestQueue.written.flatMap conversation.bytesOf

/-- The bytes that the broker has written. -/
def incoming (conversation : Conversation) : Bytes :=
  conversation.answers.flatMap fun answer => answer.2.bytes

/-- What happens. `queue` is any other event of the queue. The broker may have read any number of
the bytes that were written. `clock` is the time at which the response with a correlation id is
handled. -/
inductive Event where
  | send (encoded : EncodedRequest)
  | created (now : Int) (position : Nat)
  | queue (event : RequestQueue.Event)
  | answer (received position : Nat) (payload : Bytes)
  | deliver (clock : Int → Int) (count : Nat)

/-- The call of `fulfillRequest` in `processData`. -/
def fulfill (clock : Int → Int) (call : Fulfillment) (queue : RequestQueue) :
    RequestQueue × Option KafkaError :=
  match Command.exec (RequestQueue.fulfillRequest (clock call.correlationId) call) queue with
  | (.ok _, queue) => (queue, none)
  | (.error error, queue) => (queue, some error)

/-- `createRequest` has returned or thrown. -/
def createdRequest (now : Int) (correlationId : Int) (encoded : EncodedRequest)
    (conversation : Conversation) : Option Conversation :=
  match createRequest (conversation.header correlationId encoded.request) encoded.payload with
  | .error _ => some conversation
  | .ok encoder =>
      (RequestQueue.step conversation.requestQueue
        (.push now (Connection.pushedRequest encoded.request correlationId none))).map fun queue =>
          { conversation with
            requestQueue := queue
            pushed := conversation.pushed ++ [⟨correlationId, encoded, encoder.buffer⟩] }

/-- The broker answers one of the requests that it has read. -/
def answer (received position : Nat) (payload : Bytes) (conversation : Conversation) :
    Option Conversation :=
  match (requestFrames.drain (conversation.outgoing.take received)).1[position]? with
  | none => none
  | some content =>
      match readRequest content with
      | .error _ => none
      | .ok (header, _) =>
          if h : FitsInt 4 header.correlationId ∧ 4 + payload.length < 2 ^ 31 then
            some { conversation with
              answers := conversation.answers ++
                [(position, ⟨header.correlationId, payload, h.1, h.2⟩)] }
          else none

/-- The next bytes arrive as one chunk. -/
def deliver (clock : Int → Int) (count : Nat) (conversation : Conversation) :
    Option Conversation :=
  let chunk := (conversation.incoming.drop conversation.arrived).take count
  match Framing.processData (fulfill clock) (fun _ queue => queue) conversation.framing chunk
      conversation.requestQueue with
  | none => none
  | some (framing, queue, _) =>
      some { conversation with
        framing
        requestQueue := queue
        arrived := conversation.arrived + chunk.length }

/-- One event. -/
def step (conversation : Conversation) : Event → Option Conversation
  | .send encoded =>
      some { conversation.nextCorrelationId.2 with
        encoding := conversation.encoding ++ [(conversation.nextCorrelationId.1, encoded)] }
  | .created now position =>
      match conversation.encoding[position]? with
      | none => none
      | some (correlationId, encoded) =>
          { conversation with
            encoding := conversation.encoding.eraseIdx position }.createdRequest now correlationId
              encoded
  | .queue (.push ..) | .queue (.fulfillRequest ..) => none
  | .queue event =>
      (RequestQueue.step conversation.requestQueue event).map fun queue =>
        { conversation with requestQueue := queue }
  | .answer received position payload => conversation.answer received position payload
  | .deliver clock count => conversation.deliver clock count

/-! ## What the broker reads -/

variable {conversation next : Conversation}

/-- The bytes behind the size of a request. -/
def contentOf (conversation : Conversation) (ref : Nat) : Bytes :=
  match conversation.pushed[ref]? with
  | some pushed =>
      requestContent (conversation.header pushed.correlationId pushed.encoded.request)
        pushed.encoded.payload.buffer
  | none => []

/-- The requests that have been pushed fit their fields and have the bytes of the requests. -/
structure Written (conversation : Conversation) : Prop where
  pushed : conversation.pushed.length = conversation.requestQueue.created
  fits : ∀ pushed ∈ conversation.pushed,
    (conversation.header pushed.correlationId pushed.encoded.request).Fits
  bytes : ∀ pushed ∈ conversation.pushed,
    pushed.bytes = requestBytes (conversation.header pushed.correlationId pushed.encoded.request)
      pushed.encoded.payload.buffer
  small : ∀ pushed ∈ conversation.pushed, pushed.bytes.length < 2 ^ 31

/-- A request that was created was pushed. -/
theorem Written.lookup (h : conversation.Written) {ref : Nat}
    (hlt : ref < conversation.requestQueue.created) :
    ∃ pushed ∈ conversation.pushed, conversation.pushed[ref]? = some pushed := by
  have hlength : ref < conversation.pushed.length := h.pushed ▸ hlt
  exact ⟨conversation.pushed[ref], List.getElem_mem hlength, List.getElem?_eq_getElem hlength⟩

/-- The bytes of a request are its content behind the length. -/
theorem Written.bytesOf_eq (h : conversation.Written) {ref : Nat}
    (hlt : ref < conversation.requestQueue.created) :
    conversation.bytesOf ref =
        intBytes 4 (conversation.contentOf ref).length ++ conversation.contentOf ref ∧
      (conversation.contentOf ref).length < 2 ^ 31 := by
  obtain ⟨pushed, hmem, hget⟩ := h.lookup hlt
  have hsmall := h.small _ hmem
  rw [bytesOf, contentOf, hget]
  dsimp only
  rw [h.bytes _ hmem] at hsmall ⊢
  rw [requestBytes, List.length_append] at hsmall
  exact ⟨rfl, by omega⟩

/-- The broker reads the requests in the order in which they were written. -/
theorem Written.drain_outgoing (h : conversation.Written)
    (hcreated : conversation.requestQueue.Created) :
    requestFrames.drain conversation.outgoing =
      (conversation.requestQueue.written.map conversation.contentOf, []) := by
  have hlt : ∀ ref ∈ conversation.requestQueue.written, ref < conversation.requestQueue.created :=
    fun ref hmem => hcreated ref (List.mem_append_left _ hmem)
  rw [outgoing, List.flatMap_congr fun ref hmem => (h.bytesOf_eq (hlt ref hmem)).1]
  exact drain_requests _ _ fun ref hmem => (h.bytesOf_eq (hlt ref hmem)).2

/-- Whatever the broker has received so far, what it reads at a position is the request that has
been written there. -/
theorem Written.read (h : conversation.Written) (hcreated : conversation.requestQueue.Created)
    {received position : Nat} {content : Bytes}
    (hcontent : (requestFrames.drain (conversation.outgoing.take received)).1[position]? =
      some content) :
    ∃ ref pushed, conversation.requestQueue.written[position]? = some ref ∧
      conversation.pushed[ref]? = some pushed ∧
      readRequest content =
        .ok ((conversation.header pushed.correlationId pushed.encoded.request).wellFormed,
          pushed.encoded.payload.buffer) := by
  have hdrain := h.drain_outgoing hcreated
  rw [← List.take_append_drop received conversation.outgoing, Deframer.drain_append] at hdrain
  have hread : (conversation.requestQueue.written.map conversation.contentOf)[position]? =
      some content := by
    rw [← (Prod.mk.inj hdrain).1]
    rw [List.getElem?_append_left (List.getElem?_eq_some_iff.mp hcontent).1]
    exact hcontent
  rw [List.getElem?_map, Option.map_eq_some_iff] at hread
  obtain ⟨ref, hwritten, rfl⟩ := hread
  have hlt := hcreated ref (List.mem_append_left _ (List.mem_of_getElem? hwritten))
  obtain ⟨pushed, hmem, hget⟩ := h.lookup hlt
  refine ⟨ref, pushed, hwritten, hget, ?_⟩
  rw [contentOf, hget]
  exact readRequest_content (h.fits pushed hmem) _

/-! ## The invariant -/

/-- The correlation ids of the calls that wait for `createRequest` and of the requests of the queue
are taken, and no two calls have the same one. -/
structure Distinct (conversation : Conversation) : Prop where
  taken : ∀ ref < conversation.requestQueue.created,
    (conversation.requestQueue.requests ref).correlationId < conversation.correlationId
  waiting : ∀ entry ∈ conversation.encoding, entry.1 < conversation.correlationId ∧
    ∀ ref < conversation.requestQueue.created,
      (conversation.requestQueue.requests ref).correlationId ≠ entry.1
  nodup : (conversation.encoding.map Prod.fst).Nodup

/-- The responses in the bytes that have arrived. -/
def calls (conversation : Conversation) : List Fulfillment :=
  (responses.drain (conversation.incoming.take conversation.arrived)).1

/-- The bytes that have arrived of a response that has not arrived as a whole. -/
def rest (conversation : Conversation) : Bytes :=
  (responses.drain (conversation.incoming.take conversation.arrived)).2

/-- What holds at any time. -/
structure Consistent (conversation : Conversation) : Prop where
  distinct : conversation.Distinct
  small : ∀ entry ∈ conversation.encoding,
    (requestBytes (conversation.header entry.1 entry.2.request) entry.2.payload.buffer).length <
      2 ^ 31
  written : conversation.Written
  ids : ∀ (ref : Nat) (pushed : PushedBytes), conversation.pushed[ref]? = some pushed →
    (conversation.requestQueue.requests ref).correlationId = pushed.correlationId
  answers : ∀ position frame, (position, frame) ∈ conversation.answers →
    ∃ ref, conversation.requestQueue.written[position]? = some ref ∧
      (conversation.requestQueue.requests ref).correlationId = frame.correlationId
  arrived : conversation.arrived ≤ conversation.incoming.length
  handled : RequestQueue.Handled conversation.calls conversation.requestQueue
  framing : conversation.framing.Holds conversation.rest

/-- Without bytes there are no responses. -/
theorem drain_responses_nil : responses.drain [] = ([], []) := by
  have hnone : responses.next [] = none := by decide
  exact Deframer.drain_of_none hnone

/-- A new conversation is consistent. -/
theorem consistent_new (clientId : Option Text) (maxInFlightRequests : Option Nat)
    (requestTimeout : Int) (enforce : Bool) :
    (new clientId maxInFlightRequests requestTimeout enforce).Consistent := by
  refine ⟨⟨nofun, nofun, List.nodup_nil⟩, nofun, ⟨rfl, nofun, nofun, nofun⟩, nofun,
    fun _ _ hmem => absurd hmem List.not_mem_nil, Nat.le_refl 0, ?_, ?_⟩
  · show RequestQueue.Handled (responses.drain []).1 _
    rw [drain_responses_nil]
    exact RequestQueue.handled_new _ _ _
  · show Framing.Holds _ (responses.drain []).2
    rw [drain_responses_nil]
    exact Framing.holds_new

/-! ## Every event keeps it -/

/-- The queue has done something other than a push, while bytes may have arrived. -/
theorem Consistent.moves (h : conversation.Consistent) {queue : RequestQueue} {framing : Framing}
    {arrived : Nat} (hmoves : RequestQueue.Moves conversation.requestQueue queue)
    (harrived : arrived ≤ conversation.incoming.length)
    (hhandled : RequestQueue.Handled
      (responses.drain (conversation.incoming.take arrived)).1 queue)
    (hframing : framing.Holds (responses.drain (conversation.incoming.take arrived)).2) :
    Consistent { conversation with requestQueue := queue, framing, arrived } := by
  have hcreated := hmoves.created
  have hids := hmoves.correlationId
  refine ⟨⟨?_, ?_, h.distinct.nodup⟩, h.small,
    ⟨h.written.pushed.trans hcreated.symm, h.written.fits, h.written.bytes, h.written.small⟩, ?_,
    ?_, harrived, hhandled, hframing⟩
  · intro ref hlt
    exact (hids ref).trans_lt (h.distinct.taken ref (hcreated ▸ hlt))
  · intro entry hentry
    obtain ⟨htaken, hunused⟩ := h.distinct.waiting entry hentry
    exact ⟨htaken, fun ref hlt => (hids ref).trans_ne (hunused ref (hcreated ▸ hlt))⟩
  · intro ref pushed hget
    exact (hids ref).trans (h.ids ref pushed hget)
  · intro position frame hmem
    obtain ⟨ref, hwritten, hid⟩ := h.answers position frame hmem
    exact ⟨ref, hmoves.grows.getElem?_written hwritten, (hids ref).trans hid⟩

/-- A call of `send` keeps the conversation consistent. -/
theorem consistent_send (h : conversation.Consistent) {encoded : EncodedRequest}
    (hroom : conversation.correlationId < int32MaxValue)
    (hsmall : (requestBytes (conversation.header conversation.correlationId encoded.request)
      encoded.payload.buffer).length < 2 ^ 31)
    (hstep : step conversation (.send encoded) = some next) : next.Consistent := by
  have hid : conversation.nextCorrelationId =
      (conversation.correlationId,
        { conversation with correlationId := conversation.correlationId + 1 }) := by
    rw [nextCorrelationId, if_neg (by omega)]
  rw [step, hid] at hstep
  cases hstep
  refine ⟨⟨?_, ?_, ?_⟩, ?_,
    ⟨h.written.pushed, h.written.fits, h.written.bytes, h.written.small⟩, h.ids, h.answers,
    h.arrived, h.handled, h.framing⟩
  · intro ref hlt
    exact (h.distinct.taken ref hlt).trans (Int.lt_succ _)
  · intro entry hentry
    rcases List.mem_append.mp hentry with hold | hnew
    · obtain ⟨htaken, hunused⟩ := h.distinct.waiting entry hold
      exact ⟨htaken.trans (Int.lt_succ _), hunused⟩
    · cases List.mem_singleton.mp hnew
      exact ⟨Int.lt_succ _, fun ref hlt => (h.distinct.taken ref hlt).ne⟩
  · -- the waiting calls have ids below the counter
    show ((conversation.encoding ++ [_]).map Prod.fst).Nodup
    rw [List.map_append, List.nodup_append]
    refine ⟨h.distinct.nodup, List.nodup_singleton _, fun id hmem other hother => ?_⟩
    obtain ⟨entry, hentry, rfl⟩ := List.mem_map.mp hmem
    rw [List.mem_singleton.mp hother]
    exact (h.distinct.waiting entry hentry).1.ne
  · intro entry hentry
    rcases List.mem_append.mp hentry with hold | hnew
    · exact h.small entry hold
    · cases List.mem_singleton.mp hnew
      exact hsmall

/-- A call of `send` waits no longer. -/
theorem Consistent.eraseIdx (h : conversation.Consistent) (position : Nat) :
    Consistent { conversation with encoding := conversation.encoding.eraseIdx position } := by
  have hsublist := List.eraseIdx_sublist conversation.encoding position
  exact ⟨⟨h.distinct.taken, fun entry hentry => h.distinct.waiting entry (hsublist.subset hentry),
      h.distinct.nodup.sublist (hsublist.map Prod.fst)⟩,
    fun entry hentry => h.small entry (hsublist.subset hentry),
    ⟨h.written.pushed, h.written.fits, h.written.bytes, h.written.small⟩, h.ids, h.answers,
    h.arrived, h.handled, h.framing⟩

/-- `createRequest` throws, or the request is pushed. -/
theorem consistent_createdRequest (h : conversation.Consistent) {now correlationId : Int}
    {encoded : EncodedRequest} (htaken : correlationId < conversation.correlationId)
    (hunused : ∀ ref < conversation.requestQueue.created,
      (conversation.requestQueue.requests ref).correlationId ≠ correlationId)
    (hwaiting : correlationId ∉ conversation.encoding.map Prod.fst)
    (hsmall : (requestBytes (conversation.header correlationId encoded.request)
      encoded.payload.buffer).length < 2 ^ 31)
    (hstep : conversation.createdRequest now correlationId encoded = some next) :
    next.Consistent := by
  unfold createdRequest at hstep
  split at hstep
  · cases hstep
    exact h
  · next encoder hcreate =>
      obtain ⟨queue, hpush, hnext⟩ := Option.map_eq_some_iff.mp hstep
      subst hnext
      obtain ⟨hfits, hbytes⟩ := createRequest_ok hcreate hsmall
      have hfresh : RequestQueue.Fresh conversation.requestQueue
          (.push now (Connection.pushedRequest encoded.request correlationId none)) := hunused
      obtain ⟨hhandled, hgrows, hcreated, hentry⟩ :=
        RequestQueue.handled_push h.handled hfresh rfl hpush
      have hids : ∀ ref < conversation.requestQueue.created,
          (queue.requests ref).correlationId =
            (conversation.requestQueue.requests ref).correlationId :=
        fun ref hlt => congrArg RequestEntry.correlationId (hgrows.entries ref hlt)
      have hnew : (queue.requests conversation.requestQueue.created).correlationId =
          correlationId := congrArg RequestEntry.correlationId hentry
      have hcases : ∀ ref < queue.created, ref < conversation.requestQueue.created ∨
          ref = conversation.requestQueue.created := by
        intro ref hlt
        rw [hcreated] at hlt
        exact Nat.lt_succ_iff_lt_or_eq.mp hlt
      refine ⟨⟨?_, ?_, h.distinct.nodup⟩, h.small, ⟨?_, ?_, ?_, ?_⟩, ?_, ?_, h.arrived, hhandled,
        h.framing⟩
      · intro ref hlt
        rcases hcases ref hlt with hold | rfl
        · exact (hids ref hold).trans_lt (h.distinct.taken ref hold)
        · exact hnew.trans_lt htaken
      · intro entry hentry
        obtain ⟨hbelow, hother⟩ := h.distinct.waiting entry hentry
        refine ⟨hbelow, fun ref hlt => ?_⟩
        rcases hcases ref hlt with hold | rfl
        · exact (hids ref hold).trans_ne (hother ref hold)
        · rintro heq
          exact hwaiting (List.mem_map.mpr ⟨entry, hentry, heq.symm.trans hnew⟩)
      · show (conversation.pushed ++ [_]).length = queue.created
        rw [List.length_append, h.written.pushed, hcreated]
        rfl
      · intro pushed hmem
        rcases List.mem_append.mp hmem with hold | hnew
        · exact h.written.fits pushed hold
        · cases List.mem_singleton.mp hnew
          exact hfits
      · intro pushed hmem
        rcases List.mem_append.mp hmem with hold | hnew
        · exact h.written.bytes pushed hold
        · cases List.mem_singleton.mp hnew
          exact hbytes
      · intro pushed hmem
        rcases List.mem_append.mp hmem with hold | hnew
        · exact h.written.small pushed hold
        · rw [List.mem_singleton.mp hnew]
          exact (congrArg List.length hbytes).trans_lt hsmall
      · intro ref pushed hget
        change (conversation.pushed ++ [_])[ref]? = _ at hget
        rcases Nat.lt_or_ge ref conversation.pushed.length with hlt | hge
        · rw [List.getElem?_append_left hlt] at hget
          exact (hids ref (h.written.pushed ▸ hlt)).trans (h.ids ref pushed hget)
        · -- the request that has just been pushed
          have hlength := (List.getElem?_eq_some_iff.mp hget).1
          rw [List.length_append, List.length_singleton] at hlength
          obtain rfl : ref = conversation.pushed.length := by omega
          rw [List.getElem?_concat_length] at hget
          cases hget
          rw [h.written.pushed]
          exact hnew
      · intro position frame hmem
        obtain ⟨ref, hwritten, hid⟩ := h.answers position frame hmem
        have hlt := h.handled.created ref
          (List.mem_append_left _ (List.mem_of_getElem? hwritten))
        exact ⟨ref, hgrows.getElem?_written hwritten, (hids ref hlt).trans hid⟩


/-- The broker has written a response with the correlation id of a request. -/
theorem Consistent.concat (h : conversation.Consistent) {position ref : Nat} {frame : ResponseFrame}
    (hwritten : conversation.requestQueue.written[position]? = some ref)
    (hid : (conversation.requestQueue.requests ref).correlationId = frame.correlationId) :
    Consistent { conversation with answers := conversation.answers ++ [(position, frame)] } := by
  let after := { conversation with answers := conversation.answers ++ [(position, frame)] }
  have hincoming : after.incoming = conversation.incoming ++ frame.bytes := by
    show (conversation.answers ++ [(position, frame)]).flatMap _ = _
    rw [List.flatMap_append, List.flatMap_singleton]
    rfl
  have htake : after.incoming.take conversation.arrived =
      conversation.incoming.take conversation.arrived := by
    rw [hincoming]
    exact List.take_append_of_le_length h.arrived
  refine ⟨⟨h.distinct.taken, h.distinct.waiting, h.distinct.nodup⟩, h.small,
    ⟨h.written.pushed, h.written.fits, h.written.bytes, h.written.small⟩, h.ids, ?_, ?_, ?_, ?_⟩
  · intro other found hmem
    rcases List.mem_append.mp hmem with hold | hnew
    · exact h.answers other found hold
    · obtain ⟨rfl, rfl⟩ := Prod.mk.inj (List.mem_singleton.mp hnew)
      exact ⟨ref, hwritten, hid⟩
  · show conversation.arrived ≤ after.incoming.length
    rw [hincoming, List.length_append]
    exact h.arrived.trans (Nat.le_add_right _ _)
  · show RequestQueue.Handled (responses.drain (after.incoming.take conversation.arrived)).1 _
    rw [htake]
    exact h.handled
  · show Framing.Holds _ (responses.drain (after.incoming.take conversation.arrived)).2
    rw [htake]
    exact h.framing

/-- The broker writes the correlation id that it has read. -/
theorem consistent_answer (h : conversation.Consistent) {received position : Nat} {payload : Bytes}
    (hstep : conversation.answer received position payload = some next) : next.Consistent := by
  unfold answer at hstep
  split at hstep
  · cases hstep
  · next content hcontent =>
      obtain ⟨ref, pushed, hwritten, hget, hrequest⟩ := h.written.read h.handled.created hcontent
      rw [hrequest] at hstep
      dsimp only at hstep
      split at hstep
      · next hfits =>
          cases hstep
          exact h.concat hwritten (h.ids ref pushed hget)
      · cases hstep

end Conversation

namespace Framing

variable {σ : Type} {first second : Fulfillment → σ → σ × Option KafkaError}
  {onSuccess : Bytes → σ → σ} {valid : σ → Prop}

/-- Two handlers that agree on valid states, and keep these valid, are the same to the loop. -/
theorem processLoop_congr
    (hagree : ∀ call state, valid state →
      first call state = second call state ∧ valid (first call state).1)
    {fuel : Nat} {framing : Framing} {state : σ} (hvalid : valid state) :
    processLoop first onSuccess fuel framing state =
      processLoop second onSuccess fuel framing state := by
  induction fuel generalizing framing state with
  | zero => rfl
  | succ fuel ih =>
      rw [processLoop, processLoop]
      split
      · cases framing.round with
        | incomplete after => rfl
        | failed after error => rfl
        | auth after rawResponse => rfl
        | response after call =>
            obtain ⟨hsame, hnext⟩ := hagree call state hvalid
            dsimp only
            rw [← hsame]
            rcases hfirst : first call state with ⟨next, _ | error⟩
            · rw [hfirst] at hnext
              exact ih hnext
            · rfl
      · rfl

/-- Two ways to handle responses that agree make `processData` do the same. -/
theorem processData_congr
    (hagree : ∀ call state, valid state →
      first call state = second call state ∧ valid (first call state).1)
    {framing : Framing} {chunk : Bytes} {state : σ} (hvalid : valid state) :
    processData first onSuccess framing chunk state =
      processData second onSuccess framing chunk state := by
  unfold processData
  split
  · rfl
  · exact processLoop_congr hagree hvalid

end Framing

namespace Conversation

variable {conversation next : Conversation}

/-- What a response does to the queue. -/
def fulfilled (clock : Int → Int) (call : Fulfillment) (queue : RequestQueue) : RequestQueue :=
  queue.perform (RequestQueue.fulfillRequest (clock call.correlationId) call)

/-- A queue in which `fulfillRequest` does not throw. -/
def Undisturbed (queue : RequestQueue) : Prop :=
  RequestQueue.Tracks [] queue ∧ ∃ calls, RequestQueue.Clean calls queue

/-- In an undisturbed queue handling a response never throws. -/
theorem fulfill_eq (clock : Int → Int) (call : Fulfillment) {queue : RequestQueue}
    (h : Undisturbed queue) :
    fulfill clock call queue = (fulfilled clock call queue, none) ∧
      Undisturbed (fulfill clock call queue).1 := by
  obtain ⟨htracks, calls, hclean⟩ := h
  have hfulfill : fulfill clock call queue = (fulfilled clock call queue, none) := by
    rw [fulfill, hclean.fulfillRequest_ok htracks]
    rfl
  rw [hfulfill]
  refine ⟨rfl, (RequestQueue.fulfillRequest_spec htracks
    (hclean.safe_fulfillRequest htracks _ call)).1, calls ++ [call], ?_⟩
  exact RequestQueue.KeepsClean.perform
    (RequestQueue.keepsClean_fulfillRequest (List.mem_append_right _ List.mem_cons_self))
    (hclean.mono fun other hother => List.mem_append_left _ hother)

/-- The responses of requests that have been written, one after the other. -/
theorem handled_foldl (clock : Int → Int) {queue : RequestQueue} {calls more : List Fulfillment}
    (h : RequestQueue.Handled calls queue)
    (hmore : ∀ call ∈ more, ∃ ref ∈ queue.written,
      (queue.requests ref).correlationId = call.correlationId) :
    RequestQueue.Handled (calls ++ more)
        (more.foldl (fun queue call => fulfilled clock call queue) queue) ∧
      RequestQueue.Moves queue
        (more.foldl (fun queue call => fulfilled clock call queue) queue) := by
  induction more generalizing queue calls with
  | nil => exact ⟨by rwa [List.append_nil], .refl⟩
  | cons call more ih =>
      obtain ⟨ref, hwritten, hid⟩ := hmore call List.mem_cons_self
      obtain ⟨hnext, hmoves⟩ :=
        RequestQueue.handled_fulfill h (clock call.correlationId) hwritten hid
      have hrest : ∀ other ∈ more, ∃ ref ∈ (fulfilled clock call queue).written,
          ((fulfilled clock call queue).requests ref).correlationId = other.correlationId := by
        intro other hother
        obtain ⟨ref, hwritten, hid⟩ := hmore other (List.mem_cons_of_mem call hother)
        exact ⟨ref, hmoves.grows.written.subset hwritten, (hmoves.correlationId ref).trans hid⟩
      obtain ⟨hlast, hothers⟩ := ih hnext hrest
      rw [List.append_assoc] at hlast
      exact ⟨hlast, hmoves.trans hothers⟩

/-- The calls for all responses that have been written. -/
theorem drain_incoming (conversation : Conversation) :
    responses.drain conversation.incoming =
      (conversation.answers.map fun answer => answer.2.call, []) := by
  have hframes := ResponseFrame.drain_frames (conversation.answers.map Prod.snd)
  rw [List.flatMap_map, List.map_map] at hframes
  exact hframes

/-- Some more bytes arrive. -/
theorem consistent_deliver (h : conversation.Consistent) {clock : Int → Int} {count : Nat}
    (hstep : conversation.deliver clock count = some next) : next.Consistent := by
  obtain ⟨chunk, hchunk⟩ : ∃ chunk, chunk = (conversation.incoming.drop conversation.arrived).take
      count := ⟨_, rfl⟩
  obtain ⟨later, hlater⟩ : ∃ later, conversation.incoming.drop conversation.arrived =
      chunk ++ later := ⟨_, (hchunk ▸ List.take_append_drop count _).symm⟩
  have hincoming : conversation.incoming =
      conversation.incoming.take conversation.arrived ++ (chunk ++ later) := by
    rw [← hlater, List.take_append_drop]
  have harrived : conversation.arrived + chunk.length ≤ conversation.incoming.length := by
    have hlength := congrArg List.length hlater
    have hle := h.arrived
    rw [List.length_drop, List.length_append] at hlength
    omega
  have htake : conversation.incoming.take (conversation.arrived + chunk.length) =
      conversation.incoming.take conversation.arrived ++ chunk := by
    rw [List.take_add, hlater, List.take_left]
  -- the chunk continues what was left over, and all bytes together are whole responses
  have hdrain := @Deframer.drain_append _ _ responses
    (conversation.incoming.take conversation.arrived) chunk
  have hwhole := conversation.drain_incoming
  rw [hincoming, Deframer.drain_append, ← List.append_assoc] at hwhole
  have hsound := Framing.sound_of_drain_eq_nil (Prod.mk.inj hwhole).2
  obtain ⟨framing, hprocess, hholds⟩ := Framing.processData_eq
    (fun call queue => fulfilled clock call queue) (fun _ queue => queue) conversation.requestQueue
    h.framing hsound
  have hprocess' := (@Framing.processData_congr _ (fulfill clock) _ (fun _ queue => queue)
    Undisturbed (fun call _ hvalid => fulfill_eq clock call hvalid) conversation.framing chunk
    conversation.requestQueue ⟨h.handled.tracks, _, h.handled.clean⟩).trans hprocess
  have hknown : ∀ call ∈ (responses.drain (conversation.rest ++ chunk)).1,
      ∃ ref ∈ conversation.requestQueue.written,
        (conversation.requestQueue.requests ref).correlationId = call.correlationId := by
    intro call hcall
    rw [Deframer.drain_append (_ ++ chunk)] at hwhole
    have hmem : call ∈ conversation.answers.map fun answer => answer.2.call := by
      rw [← (Prod.mk.inj hwhole).1]
      exact List.mem_append_right _ (List.mem_append_left _ hcall)
    obtain ⟨⟨position, frame⟩, hanswer, rfl⟩ := List.mem_map.mp hmem
    obtain ⟨ref, hwritten, hid⟩ := h.answers position frame hanswer
    exact ⟨ref, List.mem_of_getElem? hwritten, hid⟩
  obtain ⟨hhandled, hmoves⟩ := handled_foldl clock h.handled hknown
  unfold deliver at hstep
  rw [← hchunk] at hstep
  dsimp only at hstep
  rw [hprocess'] at hstep
  cases hstep
  refine h.moves hmoves harrived ?_ ?_
  · rw [htake, hdrain]
    exact hhandled
  · rw [htake, hdrain]
    exact hholds

/-- A request of less than `2 ^ 31` bytes is sent, and the correlation ids have not started over. -/
def Numbered (conversation : Conversation) : Event → Prop
  | .send encoded =>
      conversation.correlationId < int32MaxValue ∧
        (requestBytes (conversation.header conversation.correlationId encoded.request)
          encoded.payload.buffer).length < 2 ^ 31
  | _ => True

/-- `Numbered` is decidable event by event. -/
instance : ∀ (conversation : Conversation) (event : Event), Decidable (Numbered conversation event)
  | conversation, .send encoded =>
      inferInstanceAs (Decidable (conversation.correlationId < int32MaxValue ∧
        (requestBytes (conversation.header conversation.correlationId encoded.request)
          encoded.payload.buffer).length < 2 ^ 31))
  | _, .created .. | _, .queue _ | _, .answer .. | _, .deliver .. => isTrue trivial

/-- A call that goes on keeps the conversation consistent. -/
theorem consistent_created (h : conversation.Consistent) {now : Int} {position : Nat}
    (hstep : step conversation (.created now position) = some next) : next.Consistent := by
  rw [step] at hstep
  split at hstep
  · cases hstep
  · next correlationId encoded hget =>
      have hmem : (correlationId, encoded) ∈ conversation.encoding := List.mem_of_getElem? hget
      obtain ⟨htaken, hunused⟩ := h.distinct.waiting _ hmem
      -- the call that goes on is none of those that still wait
      have hwaiting : correlationId ∉ (conversation.encoding.eraseIdx position).map Prod.fst := by
        obtain ⟨hlt, heq⟩ := List.getElem?_eq_some_iff.mp hget
        have hperm := ((List.getElem_cons_eraseIdx_perm hlt).map Prod.fst).nodup_iff.mpr
          h.distinct.nodup
        rw [heq] at hperm
        exact (List.nodup_cons.mp hperm).1
      exact consistent_createdRequest (h.eraseIdx position) htaken hunused hwaiting
        (h.small _ hmem) hstep

/-- Any other event of the queue. -/
theorem consistent_queue (h : conversation.Consistent) {event : RequestQueue.Event}
    (hstep : step conversation (.queue event) = some next) : next.Consistent := by
  have hother : (∀ now pushedRequest, event ≠ .push now pushedRequest) ∧
      (∀ now response, event ≠ .fulfillRequest now response) ∧
        (RequestQueue.step conversation.requestQueue event).map (fun queue =>
          { conversation with requestQueue := queue }) = some next := by
    cases event with
    | push now pushedRequest => cases hstep
    | fulfillRequest now response => cases hstep
    | _ => exact ⟨fun _ _ => by simp, fun _ _ => by simp, hstep⟩
  obtain ⟨hpush, hfulfill, hnext⟩ := hother
  obtain ⟨queue, hqueue, rfl⟩ := Option.map_eq_some_iff.mp hnext
  exact h.moves (RequestQueue.moves_step hpush hqueue) h.arrived
    (RequestQueue.handled_step h.handled hpush hfulfill hqueue) h.framing

/-- Every numbered event keeps the conversation consistent. -/
theorem consistent_step {event : Event} (h : conversation.Consistent)
    (hok : Numbered conversation event) (hstep : step conversation event = some next) :
    next.Consistent := by
  cases event with
  | send encoded => exact consistent_send h hok.1 hok.2 hstep
  | created now position => exact consistent_created h hstep
  | queue event => exact consistent_queue h hstep
  | answer received position payload => exact consistent_answer h hstep
  | deliver clock count => exact consistent_deliver h hstep

/-! ## Runs -/

/-- What the callers of `send` and the broker can rely on. -/
structure Multiplexes (conversation : Conversation) : Prop where
  /-- The broker reads the requests that were pushed, in the order in which they were written. -/
  read : ∀ position ref : Nat, conversation.requestQueue.written[position]? = some ref →
    ∃ (pushed : PushedBytes) (content : Bytes), conversation.pushed[ref]? = some pushed ∧
      (requestFrames.drain conversation.outgoing).1[position]? = some content ∧
      readRequest content =
        .ok ((conversation.header pushed.correlationId pushed.encoded.request).wellFormed,
          pushed.encoded.payload.buffer)
  /-- It reads nothing else: one frame for each request that was written, and no byte is left. -/
  frames : ((requestFrames.drain conversation.outgoing).1.length,
      (requestFrames.drain conversation.outgoing).2) =
    (conversation.requestQueue.written.length, [])
  /-- A request is resolved with a response that the broker has written for this request. -/
  resolved : ∀ ref response,
    (ref, .resolved (some response)) ∈ conversation.requestQueue.settlements →
    ∃ (position : Nat) (frame : ResponseFrame),
      conversation.requestQueue.written[position]? = some ref ∧
      (position, frame) ∈ conversation.answers ∧ response = frame.call
  /-- A request whose response has arrived is settled. -/
  settled : ∀ (before : List (Nat × ResponseFrame)) (position : Nat) (frame : ResponseFrame)
    (after : List (Nat × ResponseFrame)),
    conversation.answers = before ++ (position, frame) :: after →
    ((before ++ [(position, frame)]).flatMap fun answer => answer.2.bytes).length ≤
      conversation.arrived →
    ∃ ref, conversation.requestQueue.written[position]? = some ref ∧
      ref ∈ conversation.requestQueue.settlements.map Prod.fst
  once : ∀ ref, (conversation.requestQueue.settlements.map Prod.fst).count ref ≤ 1

/-- A consistent conversation multiplexes. -/
theorem Consistent.multiplexes (h : conversation.Consistent) : conversation.Multiplexes := by
  have hlt : ∀ (position ref : Nat), conversation.requestQueue.written[position]? = some ref →
      ref < conversation.requestQueue.created := fun position ref hwritten =>
    h.handled.created ref (List.mem_append_left _ (List.mem_of_getElem? hwritten))
  have hdrain := h.written.drain_outgoing h.handled.created
  refine ⟨?_, by rw [hdrain, List.length_map], ?_, ?_, h.handled.tracks.conserves.once⟩
  · intro position ref hwritten
    have hcontent : (requestFrames.drain conversation.outgoing).1[position]? =
        some (conversation.contentOf ref) := by
      rw [hdrain, List.getElem?_map, hwritten]
      rfl
    obtain ⟨found, pushed, hfound, hget, hread⟩ := h.written.read h.handled.created
      (show (requestFrames.drain (conversation.outgoing.take _)).1[position]? = _ by
        rw [List.take_length]
        exact hcontent)
    cases hwritten.symm.trans hfound
    exact ⟨pushed, _, hget, hcontent, hread⟩
  · intro ref response hmem
    have hcall : response ∈ conversation.answers.map fun answer => answer.2.call := by
      have hwhole := conversation.drain_incoming
      rw [← List.take_append_drop conversation.arrived conversation.incoming,
        Deframer.drain_append] at hwhole
      rw [← (Prod.mk.inj hwhole).1]
      exact List.mem_append_left _ (h.handled.clean.resolved ref response hmem)
    obtain ⟨⟨position, frame⟩, hanswer, rfl⟩ := List.mem_map.mp hcall
    obtain ⟨other, hwritten, hid⟩ := h.answers position frame hanswer
    -- the request that the broker has answered has the correlation id of the one that is resolved
    obtain rfl : ref = other := h.handled.tracks.distinct ref other
      (h.handled.tracks.lt_of_settled (List.mem_map_of_mem hmem)) (hlt position other hwritten)
      ((h.handled.tracks.delivered ref _ hmem).trans hid.symm)
    exact ⟨position, frame, hwritten, hanswer, rfl⟩
  · intro before position frame after hanswers harrived
    obtain ⟨later, hlater⟩ : ∃ later, conversation.incoming.take conversation.arrived =
        ((before ++ [(position, frame)]).flatMap fun answer => answer.2.bytes) ++ later := by
      have hincoming : conversation.incoming =
          ((before ++ [(position, frame)]).flatMap fun answer => answer.2.bytes) ++
            after.flatMap fun answer => answer.2.bytes := by
        rw [incoming, hanswers, ← List.flatMap_append, List.append_assoc, List.singleton_append]
      rw [hincoming, List.take_append, List.take_of_length_le harrived]
      exact ⟨_, rfl⟩
    have hcall : frame.call ∈ conversation.calls := by
      have hframes := ResponseFrame.drain_frames ((before ++ [(position, frame)]).map Prod.snd)
      rw [List.flatMap_map, List.map_map] at hframes
      rw [calls, hlater, Deframer.drain_append, hframes]
      exact List.mem_append_left _ (List.mem_map.mpr
        ⟨(position, frame), List.mem_append_right _ List.mem_cons_self, rfl⟩)
    obtain ⟨ref, hwritten, hid⟩ := h.answers position frame
      (hanswers ▸ List.mem_append_right _ List.mem_cons_self)
    obtain ⟨other, hother, hcorrelation, hsettled⟩ := h.handled.settled _ hcall
    obtain ⟨index, hindex⟩ := List.getElem?_of_mem hother
    obtain rfl : ref = other := h.handled.tracks.distinct ref other (hlt position ref hwritten)
      (hlt index other hindex) (hid.trans hcorrelation.symm)
    exact ⟨ref, hwritten, hsettled⟩

/-- In every run on a connection with a socket that stays open, whatever is pushed, times out or is
rejected, in whatever order the broker answers and however the responses are cut into chunks. -/
theorem multiplexes_of_run {clientId : Option Text} {maxInFlightRequests : Option Nat}
    {requestTimeout : Int} {enforceRequestTimeout : Bool} {events : List Event}
    (hnumbered : Meets step Numbered
      (new clientId maxInFlightRequests requestTimeout enforceRequestTimeout) events)
    (hrun : run step (new clientId maxInFlightRequests requestTimeout enforceRequestTimeout)
      events = some conversation) : conversation.Multiplexes :=
  (invariant_of_meets (fun _ _ _ => consistent_step) (consistent_new _ _ _ _) hnumbered
    hrun).multiplexes

/-- A metadata request with a payload of one byte. -/
def metadataRequest (byte : UInt8) : EncodedRequest :=
  { request := ⟨3, "Metadata", 5, true, none⟩, payload := ⟨[byte], 1⟩ }

/-- The request of the second call is written first and answered last, and the responses are cut in
the second size. -/
def crossedAnswers : List Event :=
  [.send (metadataRequest 1), .send (metadataRequest 2), .created 0 1, .created 1 0,
    .answer 40 1 [7, 7], .answer 16 0 [8], .deliver (fun _ => 5) 12, .deliver (fun _ => 9) 100]

/-- Answers that cross reach their requests. -/
theorem multiplexes_crossedAnswers :
    ∃ conversation, run step (new (some [107]) none 30000 true) crossedAnswers = some conversation ∧
      conversation.Multiplexes := by
  have hsome : (run step (new (some [107]) none 30000 true) crossedAnswers).isSome := by
    decide +kernel
  obtain ⟨conversation, hrun⟩ := Option.isSome_iff_exists.mp hsome
  exact ⟨conversation, hrun, multiplexes_of_run (by decide +kernel) hrun⟩

end Conversation

end KafkaJs.Network
