import KafkaJs.Data.InsertionMap
import KafkaJs.Execution.Command
import KafkaJs.Execution.Run
import KafkaJs.Network.Framing

/-!
# The request queue

`network/requestQueue/index.js` and `socketRequest.js`: requests that have been sent and wait for
their response (`inflight`), and requests that wait to be sent because of the limit on inflight
requests or because the broker throttles the client (`pending`).

A request is an object that several places refer to, so requests live in `requests` and are referred
to by their number in the order of their creation. Everything the queue does is a command: an
exception, such as one of `sendRequest`, unwinds through it and leaves what was changed before.
-/

namespace KafkaJs.Network

open KafkaJs.Data KafkaJs.Execution KafkaJs.Protocol

/-- `REQUEST_STATE`. -/
inductive RequestState where
  | pending
  | sent
  | completed
  | rejected
  deriving DecidableEq, Repr

/-- The text of the symbol that stands for a state. -/
def RequestState.toString : RequestState → String
  | .pending => "Symbol(PENDING)"
  | .sent => "Symbol(SENT)"
  | .completed => "Symbol(COMPLETED)"
  | .rejected => "Symbol(REJECTED)"

/-- The entry of a request, without the two functions that settle its promise. -/
structure RequestEntry where
  apiKey : Int
  apiName : String
  apiVersion : Int
  correlationId : Int
  deriving DecidableEq, Repr

/-- The argument of `push`. `sendError` is what its `sendRequest` throws, if it throws. -/
structure PushedRequest where
  entry : RequestEntry
  expectResponse : Bool
  requestTimeout : Option Int
  sendError : Option KafkaError
  deriving DecidableEq, Repr

/-- A socket request; times are in milliseconds. -/
structure SocketRequest where
  entry : RequestEntry
  expectResponse : Bool
  requestTimeout : Int
  createdAt : Int
  sentAt : Option Int
  state : RequestState
  sendError : Option KafkaError
  deriving DecidableEq, Repr

/-- `correlationId` of a request. -/
def SocketRequest.correlationId (request : SocketRequest) : Int := request.entry.correlationId

/-- What the caller of a request learns: a response, where `none` is the empty one of a request that
expects none, an error, or an exception of `push`. -/
inductive Settlement where
  | resolved (response : Option Fulfillment)
  | rejected (error : KafkaError)
  | thrown (error : KafkaError)
  deriving DecidableEq

/-- The fields of a request queue, with the requests created so far. `listeners` wait for the event
that the queue is empty, and `ready` are those whose promise has been resolved. `written` are the
requests whose `sendRequest` has returned. -/
structure RequestQueue where
  maxInFlightRequests : Option Nat
  requestTimeout : Int
  enforceRequestTimeout : Bool
  requests : Nat → SocketRequest
  created : Nat
  inflight : InsertionMap Int Nat
  pending : List Nat
  throttledUntil : Int
  throttleCheckTimeoutId : Option Int
  requestTimeoutInterval : Bool
  listeners : List Nat
  ready : List Nat
  settlements : List (Nat × Settlement)
  written : List Nat

namespace RequestQueue

/-- What a number refers to before a request has got it. -/
def noRequest : SocketRequest :=
  { entry := ⟨0, "", 0, 0⟩, expectResponse := true, requestTimeout := 0, createdAt := 0,
    sentAt := none, state := .pending, sendError := none }

/-- `new RequestQueue(...)`. -/
def new (maxInFlightRequests : Option Nat) (requestTimeout : Int) (enforceRequestTimeout : Bool) :
    RequestQueue :=
  { maxInFlightRequests, requestTimeout, enforceRequestTimeout, requests := fun _ => noRequest,
    created := 0, inflight := .empty, pending := [], throttledUntil := -1,
    throttleCheckTimeoutId := none, requestTimeoutInterval := false, listeners := [], ready := [],
    settlements := [], written := [] }

/-- `pending.length === 0 && inflight.size === 0`. -/
def isEmpty (queue : RequestQueue) : Bool := queue.pending = [] ∧ queue.inflight.entries = []

/-- Change the fields of one request. -/
def update (ref : Nat) (change : SocketRequest → SocketRequest) (queue : RequestQueue) :
    RequestQueue :=
  { queue with requests := Function.update queue.requests ref (change (queue.requests ref)) }

/-- The caller of a request learns its outcome. -/
def settle (ref : Nat) (settlement : Settlement) (queue : RequestQueue) : RequestQueue :=
  { queue with settlements := queue.settlements ++ [(ref, settlement)] }

/-- `inflight.delete`. -/
def deleteInflight (correlationId : Int) (queue : RequestQueue) : RequestQueue :=
  { queue with inflight := queue.inflight.delete correlationId }

/-- `this.pending = pending`. -/
def setPending (pending : List Nat) (queue : RequestQueue) : RequestQueue := { queue with pending }

/-- `this.pending = []` and `inflight.clear()`. -/
def clear (queue : RequestQueue) : RequestQueue := { queue with pending := [], inflight := .empty }

/-- `EMIT_REQUEST_QUEUE_EMPTY`: an empty queue resolves the promises of those that wait for it. -/
def emitRequestQueueEmpty (queue : RequestQueue) : RequestQueue :=
  if queue.isEmpty then { queue with ready := queue.ready ++ queue.listeners, listeners := [] }
  else queue

/-- `EMIT_QUEUE_SIZE_EVENT`, without the instrumentation. -/
def emitQueueSizeEvent (queue : RequestQueue) : RequestQueue := queue.emitRequestQueueEmpty

/-- `canSendSocketRequestImmediately` for a number of inflight requests. -/
def roomFor (queue : RequestQueue) (now : Int) (inflightSize : Nat) : Bool :=
  ¬ ((∃ limit ∈ queue.maxInFlightRequests, limit ≤ inflightSize) ∨ now < queue.throttledUntil)

/-- `canSendSocketRequestImmediately`. -/
def canSendSocketRequestImmediately (queue : RequestQueue) (now : Int) : Bool :=
  queue.roomFor now queue.inflight.entries.length

/-- What the queue does. -/
abbrev Action := Command RequestQueue KafkaError Unit

/-! ### `socketRequest.js` -/

/-- `throwIfInvalidState`. -/
def throwIfInvalidState (ref : Nat) (accepted : List RequestState) (next : RequestState) :
    Action := do
  let queue ← get
  if (queue.requests ref).state ∈ accepted then pure ()
  else
    throw { name := .kafkaJSNonRetriableError,
            message := "Invalid state, can't transition from " ++
              (queue.requests ref).state.toString ++ " to " ++ next.toString,
            retriable := some false }

/-- The function `send` that `createSocketRequest` passes to a request. -/
def sendRequest (ref : Nat) : Action := do
  let queue ← get
  if queue.inflight.has (queue.requests ref).correlationId then
    throw { name := .kafkaJSInvariantViolation,
            message := "Invariant violated: Correlation id already exists. This is likely a bug " ++
              "and should be reported.",
            retriable := some false }
  else
    set { queue with inflight := queue.inflight.set (queue.requests ref).correlationId ref }
    match (queue.requests ref).sendError with
    | some error => throw error
    | none => modify fun queue => { queue with written := queue.written ++ [ref] }

/-- `SocketRequest.send`. -/
def send (now : Int) (ref : Nat) : Action := do
  throwIfInvalidState ref [.pending] .sent
  sendRequest ref
  modify (update ref fun request => { request with sentAt := some now, state := .sent })

/-- `SocketRequest.completed`. -/
def completed (ref : Nat) (response : Option Fulfillment) : Action := do
  throwIfInvalidState ref [.sent] .completed
  modify (update ref fun request => { request with state := .completed })
  modify (settle ref (.resolved response))

/-- `SocketRequest.rejected`. -/
def rejected (ref : Nat) (error : KafkaError) : Action := do
  throwIfInvalidState ref [.pending, .sent] .rejected
  modify (update ref fun request => { request with state := .rejected })
  modify (settle ref (.rejected error))

/-! ### `requestQueue/index.js` -/

/-- `CHECK_PENDING_REQUESTS_INTERVAL`. -/
def checkPendingRequestsInterval : Int := 10

/-- `createSocketRequest`. -/
def createSocketRequest (now : Int) (pushedRequest : PushedRequest) (queue : RequestQueue) :
    RequestQueue :=
  let request : SocketRequest :=
    { entry := pushedRequest.entry
      expectResponse := pushedRequest.expectResponse
      requestTimeout := max queue.requestTimeout (pushedRequest.requestTimeout.getD 0)
      createdAt := now
      sentAt := none
      state := .pending
      sendError := pushedRequest.sendError }
  { queue with
    requests := Function.update queue.requests queue.created request
    created := queue.created + 1 }

/-- `sendSocketRequest`. -/
def sendSocketRequest (now : Int) (ref : Nat) : Action := do
  send now ref
  let queue ← get
  if ¬ (queue.requests ref).expectResponse then
    modify (deleteInflight (queue.requests ref).correlationId)
    completed ref none

/-- `scheduleCheckPendingRequests`, with the time at which the timer fires. -/
def scheduleCheckPendingRequests (now : Int) (queue : RequestQueue) : RequestQueue :=
  match queue.throttleCheckTimeoutId with
  | some _ => queue
  | none =>
      let scheduleAt := queue.throttledUntil - now
      let scheduleAt :=
        if queue.pending ≠ [] ∧ scheduleAt ≤ 0 then checkPendingRequestsInterval else scheduleAt
      { queue with throttleCheckTimeoutId := some (now + scheduleAt) }

/-- The loop of `checkPendingRequests`, over the pending requests. -/
def sendPending (now : Int) : List Nat → Action
  | [] => pure ()
  | ref :: rest => do
      let queue ← get
      if queue.canSendSocketRequestImmediately now then
        modify (setPending rest)
        sendSocketRequest now ref
        modify emitQueueSizeEvent
        sendPending now rest

/-- `checkPendingRequests`. -/
def checkPendingRequests (now : Int) : Action := do
  let queue ← get
  sendPending now queue.pending
  modify (scheduleCheckPendingRequests now)

/-- `push`. -/
def push (now : Int) (pushedRequest : PushedRequest) : Action := do
  let queue ← get
  let ref := queue.created
  modify (createSocketRequest now pushedRequest)
  if queue.canSendSocketRequestImmediately now then sendSocketRequest now ref
  else
    modify (setPending (queue.pending ++ [ref]))
    modify (scheduleCheckPendingRequests now)
    modify emitQueueSizeEvent

/-- `fulfillRequest`. A response without match is only logged. -/
def fulfillRequest (now : Int) (response : Fulfillment) : Action := do
  let queue ← get
  let socketRequest := queue.inflight.get? response.correlationId
  modify (deleteInflight response.correlationId)
  checkPendingRequests now
  match socketRequest with
  | some ref => completed ref (some response)
  | none => pure ()
  modify emitRequestQueueEmpty

/-- The error of a request that timed out. -/
def timeoutError (entry : RequestEntry) : KafkaError :=
  { name := .kafkaJSRequestTimeoutError
    message := "Request " ++ entry.apiName ++ "(key: " ++ toString entry.apiKey ++ ", version: " ++
      toString entry.apiVersion ++ ") timed out" }

/-- `timeoutRequest` of a request. -/
def timeoutRequest (now : Int) (ref : Nat) : Action := do
  let queue ← get
  modify (deleteInflight (queue.requests ref).correlationId)
  checkPendingRequests now
  modify emitRequestQueueEmpty
  rejected ref (timeoutError (queue.requests ref).entry)

/-- Whether the interval finds that a request has timed out. -/
def isTimedOut (now : Int) (request : SocketRequest) : Bool :=
  request.requestTimeout < now - request.sentAt.getD 0

/-- `rejectAll`. -/
def rejectAll (error : KafkaError) : Action := do
  let queue ← get
  (queue.inflight.values ++ queue.pending).forM fun ref => do
    rejected ref error
    modify (deleteInflight (queue.requests ref).correlationId)
  modify clear
  modify emitQueueSizeEvent

/-- `waitForPendingRequests`: the promise is resolved at once or when the queue is empty. -/
def waitForPendingRequests (waiter : Nat) (queue : RequestQueue) : RequestQueue :=
  if queue.isEmpty then { queue with ready := queue.ready ++ [waiter] }
  else { queue with listeners := queue.listeners ++ [waiter] }

/-- What waited for the empty queue goes on. -/
def resumeWaiter (waiter : Nat) (queue : RequestQueue) : RequestQueue :=
  { queue with ready := queue.ready.erase waiter }

/-- `destroy`. -/
def destroy (queue : RequestQueue) : RequestQueue :=
  { queue with requestTimeoutInterval := false, throttleCheckTimeoutId := none }

/-- `scheduleRequestTimeoutCheck`. -/
def scheduleRequestTimeoutCheck (queue : RequestQueue) : RequestQueue :=
  if queue.enforceRequestTimeout then { queue.destroy with requestTimeoutInterval := true }
  else queue

/-- `maybeThrottle`. -/
def maybeThrottle (now : Int) (clientSideThrottleTime : Option Int) (queue : RequestQueue) :
    RequestQueue :=
  match clientSideThrottleTime with
  | some time =>
      if 0 < time then { queue with throttledUntil := max (now + time) queue.throttledUntil }
      else queue
  | none => queue

/-- The timer for pending requests fires. -/
def checkTimer (now : Int) : Action := do
  modify fun queue => { queue with throttleCheckTimeoutId := none }
  checkPendingRequests now

/-! ### Runs -/

/-- What happens to a queue; `now` is the time. The interval goes over the inflight requests, and
every one that it finds timed out is an event. -/
inductive Event where
  | push (now : Int) (pushedRequest : PushedRequest)
  | fulfillRequest (now : Int) (response : Fulfillment)
  | timeoutRequest (now : Int) (ref : Nat)
  | rejectAll (error : KafkaError)
  | checkTimer (now : Int)
  | maybeThrottle (now : Int) (clientSideThrottleTime : Option Int)
  | scheduleRequestTimeoutCheck
  | destroy
  | waitForPendingRequests (waiter : Nat)
  deriving DecidableEq

/-- The state that a command leaves, whether it throws or not. -/
def perform (queue : RequestQueue) (action : Action) : RequestQueue :=
  (Command.exec action queue).2

/-- One event. An exception of `push` is reported to its caller. -/
def step (queue : RequestQueue) : Event → Option RequestQueue
  | .push now pushedRequest =>
      match Command.exec (push now pushedRequest) queue with
      | (.ok _, after) => some after
      | (.error error, after) => some (after.settle queue.created (.thrown error))
  | .fulfillRequest now response => some (queue.perform (fulfillRequest now response))
  | .timeoutRequest now ref =>
      if queue.requestTimeoutInterval ∧ ref ∈ queue.inflight.values ∧
          isTimedOut now (queue.requests ref) then
        some (queue.perform (timeoutRequest now ref))
      else none
  | .rejectAll error => some (queue.perform (rejectAll error))
  | .checkTimer now =>
      if queue.throttleCheckTimeoutId.isSome then some (queue.perform (checkTimer now)) else none
  | .maybeThrottle now clientSideThrottleTime =>
      some (queue.maybeThrottle now clientSideThrottleTime)
  | .scheduleRequestTimeoutCheck => some queue.scheduleRequestTimeoutCheck
  | .destroy => some queue.destroy
  | .waitForPendingRequests waiter => some (queue.waitForPendingRequests waiter)

end RequestQueue

end KafkaJs.Network
