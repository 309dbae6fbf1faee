import KafkaJs.Execution.Run
import KafkaJs.Producer.EosManager.Sequences
import KafkaJs.Producer.SendMessages
import KafkaJs.Utils.Lock

/-!
# Concurrent sends of an idempotent producer

Any number of `sendMessages` calls run at once, with explicit partitions that one stable broker
leads, so every attempt makes one request. The calls share the sequences of the eos manager and
the lock of the broker. A request claims its sequences once the lock is held, and gives them back
when it fails. The nested `forEach` over topics and partitions visits the entries of `Call` in
order.

The broker decides per topic-partition: it appends a batch that starts at the next sequence it
expects, acknowledges a batch that it remembers without appending it, and rejects any other. A
request may be lost before it arrives, and its response on the way back.
-/

namespace KafkaJs.Producer.Idempotent

open Data Utils

/-- The messages of one call, by topic-partition. `groupMessagesPerPartition` makes no empty
groups. -/
structure Call (τ μ : Type) where
  entries : List (τ × List μ)
  nodup : (entries.map Prod.fst).Nodup
  nonempty : ∀ entry ∈ entries, entry.2 ≠ []

/-- A record batch with the call it belongs to. -/
structure Batch (μ : Type) where
  owner : Nat
  firstSequence : Int
  messages : List μ
  deriving DecidableEq, Repr

variable {τ μ : Type}

/-! ## The broker -/

/-- The next sequence the broker expects, from the batches it appended, newest first. -/
def nextSequence : List (Batch μ) → Int
  | [] => 0
  | batch :: _ => batch.firstSequence + batch.messages.length

/-- Whether the broker remembers a batch with the sequence and the record count of this one. -/
def remembers (window : Nat) (log : List (Batch μ)) (batch : Batch μ) : Bool :=
  (log.take window).any fun old =>
    old.firstSequence = batch.firstSequence ∧ old.messages.length = batch.messages.length

/-- The log after the broker processed a batch. -/
def receive (log : List (Batch μ)) (batch : Batch μ) : List (Batch μ) :=
  if batch.firstSequence = nextSequence log then batch :: log else log

/-- Whether the broker acknowledges a batch. -/
def acknowledges (window : Nat) (log : List (Batch μ)) (batch : Batch μ) : Bool :=
  batch.firstSequence = nextSequence log ∨ remembers window log batch

/-! ## The calls -/

/-- Where a call stands. A request carries its batches by topic-partition. -/
inductive SendPhase (τ μ : Type) where
  | idle (retryCount : Nat)
  | queued (retryCount : Nat)
  | locked (retryCount : Nat)
  | producing (retryCount : Nat) (request : List (τ × Batch μ))
  | delivered (retryCount : Nat) (request : List (τ × Batch μ)) (accepted : Bool)
  | resolved
  | rejected (error : KafkaError)

/-- The producer and its broker. -/
structure State (τ μ : Type) where
  producerSequence : τ → Int
  lock : Lock Nat
  phase : Nat → SendPhase τ μ
  log : τ → List (Batch μ)

/-- What may happen next, in the call with the given number. -/
inductive Event where
  | attempt (call : Nat)
  | attemptFails (call : Nat) (error : KafkaError) (recovery : Recovery)
  | lockTimeout (call : Nat) (recovery : Recovery)
  | produce (call : Nat)
  | deliver (call : Nat)
  | respond (call : Nat) (recovery : Recovery)
  | fail (call : Nat) (error : KafkaError) (recovery : Recovery)
  deriving DecidableEq, Repr

/-- Before any call. -/
def State.initial : State τ μ :=
  { producerSequence := fun _ => 0
    lock := Lock.free
    phase := fun _ => .idle 0
    log := fun _ => [] }

/-- The retrier after an attempt failed. -/
def afterError (retries retryCount : Nat) (recovery : Recovery) (error : KafkaError) :
    SendPhase τ μ :=
  match retryOrReject retries retryCount (catchAttempt recovery error) with
  | .waiting next => .idle next
  | .rejected error => .rejected error
  -- the retrier only retries or rejects
  | .sending _ | .resolved _ => .rejected error

/-- The error of a lock that could not be acquired in time. -/
def lockTimeoutError : KafkaError :=
  { name := .kafkaJSLockTimeout, message := "Timeout while acquiring lock" }

/-- The phase of a waiter that takes the lock. -/
def SendPhase.granted : SendPhase τ μ → SendPhase τ μ
  | .queued retryCount => .locked retryCount
  | phase => phase

/-- The released lock goes to a waiter, if there is one. -/
def grant (phase : Nat → SendPhase τ μ) : Option Nat → Nat → SendPhase τ μ
  | none => phase
  | some caller => Function.update phase caller (phase caller).granted

/-- The call releases the lock and goes on to a new phase. -/
def releaseBrokerLock (state : State τ μ) (call : Nat) (phase : SendPhase τ μ) : State τ μ :=
  let (lock, next) := state.lock.release
  { state with
    lock := lock
    phase := grant (Function.update state.phase call phase) next }

variable [DecidableEq τ]

/-- The sequences of a request: each entry reads its sequence and advances it. -/
def claim (owner : Nat) : (τ → Int) → List (τ × List μ) → List (τ × Batch μ) × (τ → Int)
  | producerSequence, [] => ([], producerSequence)
  | producerSequence, (topicPartition, messages) :: entries =>
      let firstSequence := getSequence true producerSequence topicPartition
      let (request, final) := claim owner
        (updateSequence true producerSequence topicPartition messages.length) entries
      ((topicPartition, ⟨owner, firstSequence, messages⟩) :: request, final)

/-- The sequences after a failed request gave its own back. -/
def giveBack (producerSequence : τ → Int) (request : List (τ × Batch μ)) : τ → Int :=
  request.foldl (fun producerSequence entry =>
    updateSequence true producerSequence entry.1 (-entry.2.messages.length)) producerSequence

/-- A request failed: its sequences are given back and the lock is released. -/
def produceFails (retries : Nat) (state : State τ μ) (call retryCount : Nat)
    (request : List (τ × Batch μ)) (error : KafkaError) (recovery : Recovery) : State τ μ :=
  releaseBrokerLock
    { state with producerSequence := giveBack state.producerSequence request } call
    (afterError retries retryCount recovery error)

/-- The error for a rejected batch, `OUT_OF_ORDER_SEQUENCE_NUMBER`. -/
def outOfOrderSequence : KafkaError := createErrorFromCode 45

/-- One event. -/
def step (calls : Nat → Call τ μ) (window retries : Nat) (state : State τ μ) :
    Event → Option (State τ μ)
  | .attempt call =>
      match state.phase call with
      | .idle retryCount =>
          -- without messages there is no leader and no request
          if (calls call).entries = [] then
            some { state with phase := Function.update state.phase call .resolved }
          else
            let (lock, acquired) := state.lock.acquire call
            some { state with
              lock := lock
              phase := Function.update state.phase call
                (if acquired then .locked retryCount else .queued retryCount) }
      | _ => none
  | .attemptFails call error recovery =>
      match state.phase call with
      | .idle retryCount =>
          some { state with
            phase := Function.update state.phase call
              (afterError retries retryCount recovery error) }
      | _ => none
  | .lockTimeout call recovery =>
      match state.phase call with
      | .queued retryCount =>
          some { state with
            lock := state.lock.expire call
            phase := Function.update state.phase call
              (afterError retries retryCount recovery lockTimeoutError) }
      | _ => none
  | .produce call =>
      match state.phase call with
      | .locked retryCount =>
          let (request, producerSequence) :=
            claim call state.producerSequence (calls call).entries
          some { state with
            producerSequence := producerSequence
            phase := Function.update state.phase call (.producing retryCount request) }
      | _ => none
  | .deliver call =>
      match state.phase call with
      | .producing retryCount request =>
          some { state with
            log := updateAll receive state.log request
            phase := Function.update state.phase call (.delivered retryCount request
              (request.all fun entry => acknowledges window (state.log entry.1) entry.2)) }
      | _ => none
  | .respond call recovery =>
      match state.phase call with
      | .delivered retryCount request accepted =>
          if accepted then some (releaseBrokerLock state call .resolved)
          else some (produceFails retries state call retryCount request outOfOrderSequence
            recovery)
      | _ => none
  | .fail call error recovery =>
      match state.phase call with
      | .producing retryCount request | .delivered retryCount request _ =>
          some (produceFails retries state call retryCount request error recovery)
      | _ => none

end KafkaJs.Producer.Idempotent
