import KafkaJs.Execution.Run
import KafkaJs.Producer.EosManager.Sequences
import KafkaJs.Utils.Lock

/-!
# Sends of an idempotent producer that connects

`connect` of an idempotent producer makes the status CONNECTED once the cluster is connected, and
only then asks for a producer id, so sends are accepted before there is one. The answer resets
the sequences and the locks of the brokers. A second call of `connect` before the first answer
asks for a second id.

A task is the request of a send to one broker, from `acquireBrokerLock` to `releaseBrokerLock`.
`isInitialized` is consulted at every step of it on its own. The locks are objects on a heap, and
`brokerMutexLocks` says which one a broker has now.

The fields after `tasks` are read by the specifications and not by the code: the produce requests,
the calls of `releaseBrokerLock`, and how often the sequence of a topic-partition was rotated.
-/

namespace KafkaJs.Producer.Connecting

open Utils

/-- `NO_PRODUCER_ID`. -/
def noProducerId : Int := -1

/-- Where a task stands, with the lock that it waits for or holds. A request in flight remembers
how often the sequences were rotated before it claimed its own. -/
inductive TaskPhase (τ : Type) where
  | waiting (lock : Nat)
  | acquired (lock : Option Nat)
  | producing (lock : Option Nat) (rotations : τ → Nat)
  | ended

/-- The request of a send to one broker: the numbers of messages by topic-partition. -/
structure Task (τ : Type) where
  nodeId : Int
  entries : List (τ × Nat)
  phase : TaskPhase τ

/-- A produce request, as far as the idempotent producer numbers it. -/
structure ProduceRequest where
  producerId : Int
  firstSequences : List Int
  deriving DecidableEq, Repr

/-- A call of `releaseBrokerLock`: the task, the lock it has acquired, the lock that is released,
and the tasks that hold this lock at the time. -/
structure Release where
  task : Nat
  acquired : Option Nat
  released : Option Nat
  holders : List Nat
  deriving DecidableEq, Repr

/-- The producer. `connecting` counts the calls of `connect` that wait for the cluster, and
`initializing` those that wait for a producer id. -/
structure State (τ : Type) where
  connected : Bool
  connecting : Nat
  initializing : Nat
  producerId : Int
  producerSequence : τ → Int
  brokerMutexLocks : Int → Option Nat
  locks : Nat → Lock Nat
  nextLock : Nat
  tasks : List (Task τ)
  requests : List ProduceRequest
  releases : List Release
  rotations : τ → Nat

/-- What may happen next. `request` is a send that reaches `acquireBrokerLock`, in any of its
attempts. -/
inductive Event (τ : Type) where
  | connect
  | clusterConnected
  | clusterConnectFails
  | producerIdAnswered (producerId : Nat)
  | initProducerIdFails
  | request (nodeId : Int) (entries : List (τ × Nat))
  | lockTimeout (task : Nat)
  | produce (task : Nat)
  | answered (task : Nat) (ok : Bool)

variable {τ : Type}

/-- A new producer. -/
def State.initial : State τ :=
  { connected := false
    connecting := 0
    initializing := 0
    producerId := noProducerId
    producerSequence := fun _ => 0
    brokerMutexLocks := fun _ => none
    locks := fun _ => Lock.free
    nextLock := 0
    tasks := []
    requests := []
    releases := []
    rotations := fun _ => 0 }

/-- `isInitialized`. -/
def State.isInitialized (state : State τ) : Bool := state.producerId ≠ noProducerId

/-! ## The locks -/

/-- The lock that a task waits for or holds. -/
def TaskPhase.lock : TaskPhase τ → Option Nat
  | .waiting lock => some lock
  | .acquired lock | .producing lock _ => lock
  | .ended => none

/-- The task holds a lock. -/
def TaskPhase.holds (lock : Nat) : TaskPhase τ → Bool
  | .acquired held | .producing held _ => held = some lock
  | .waiting _ | .ended => false

/-- The task waits for a lock. -/
def TaskPhase.waits (lock : Nat) : TaskPhase τ → Bool
  | .waiting awaited => awaited = lock
  | .acquired _ | .producing _ _ | .ended => false

def TaskPhase.isEnded : TaskPhase τ → Bool
  | .ended => true
  | .waiting _ | .acquired _ | .producing _ _ => false

def Task.setPhase (task : Task τ) (phase : TaskPhase τ) : Task τ := { task with phase := phase }

def State.setPhase (state : State τ) (index : Nat) (phase : TaskPhase τ) : State τ :=
  { state with tasks := state.tasks.modify index fun task => task.setPhase phase }

/-- `acquireBrokerLock`, by a new task. -/
def State.acquireBrokerLock (state : State τ) (nodeId : Int) (entries : List (τ × Nat)) :
    State τ :=
  if state.isInitialized then
    let lockId := (state.brokerMutexLocks nodeId).getD state.nextLock
    let (lock, acquired) := (state.locks lockId).acquire state.tasks.length
    { state with
      brokerMutexLocks := Function.update state.brokerMutexLocks nodeId (some lockId)
      nextLock := if (state.brokerMutexLocks nodeId).isSome then state.nextLock
        else state.nextLock + 1
      locks := Function.update state.locks lockId lock
      tasks := state.tasks ++
        [⟨nodeId, entries, if acquired then .acquired (some lockId) else .waiting lockId⟩] }
  else { state with tasks := state.tasks ++ [⟨nodeId, entries, .acquired none⟩] }

/-- A waiter takes the lock that was released. -/
def State.grant (state : State τ) (lock : Nat) : Option Nat → State τ
  | none => state
  | some waiter => state.setPhase waiter (.acquired (some lock))

/-- The tasks that hold a lock. -/
def State.holders (state : State τ) (lock : Nat) : List Nat :=
  (List.range state.tasks.length).filter fun index =>
    state.tasks[index]?.any fun task => task.phase.holds lock

/-- The end of a task, with `releaseBrokerLock`. A broker without a lock is a TypeError. -/
def State.releaseBrokerLock (state : State τ) (index : Nat) (task : Task τ) : State τ :=
  match if state.isInitialized then state.brokerMutexLocks task.nodeId else none with
  | none =>
      { state.setPhase index .ended with
        releases := state.releases ++ [⟨index, task.phase.lock, none, []⟩] }
  | some lockId =>
      let (lock, waiter) := (state.locks lockId).release
      { (state.setPhase index .ended).grant lockId waiter with
        locks := Function.update state.locks lockId lock
        releases := state.releases ++
          [⟨index, task.phase.lock, some lockId, state.holders lockId⟩] }

/-! ## The sequences -/

variable [DecidableEq τ]

/-- The first sequences of the entries of a request, and the sequences after it. -/
def claimSequences (initialized : Bool) :
    (τ → Int) → List (τ × Nat) → List Int × (τ → Int)
  | producerSequence, [] => ([], producerSequence)
  | producerSequence, (topicPartition, count) :: entries =>
      let firstSequence := getSequence initialized producerSequence topicPartition
      let (firstSequences, final) := claimSequences initialized
        (updateSequence initialized producerSequence topicPartition count) entries
      (firstSequence :: firstSequences, final)

/-- The sequences after a failed request gave its own back. -/
def giveBackSequences (initialized : Bool) (producerSequence : τ → Int)
    (entries : List (τ × Nat)) : τ → Int :=
  entries.foldl (fun producerSequence entry =>
    updateSequence initialized producerSequence entry.1 (-entry.2)) producerSequence

/-- How often the sequences were rotated once a request has claimed its own. -/
def countRotations (producerSequence : τ → Int) (rotations : τ → Nat) :
    List (τ × Nat) → τ → Nat
  | [] => rotations
  | (topicPartition, count) :: entries =>
      countRotations (updateSequence true producerSequence topicPartition count)
        (if int32MaxValue ≤ producerSequence topicPartition + count then
          Function.update rotations topicPartition (rotations topicPartition + 1)
        else rotations) entries

/-- The sequences are claimed and the request is sent, in one turn. -/
def State.produce (state : State τ) (index : Nat) (task : Task τ) (lock : Option Nat) : State τ :=
  let (firstSequences, producerSequence) :=
    claimSequences state.isInitialized state.producerSequence task.entries
  { state.setPhase index (.producing lock state.rotations) with
    producerSequence := producerSequence
    requests := state.requests ++ [⟨state.producerId, firstSequences⟩]
    rotations :=
      if state.isInitialized then
        countRotations state.producerSequence state.rotations task.entries
      else state.rotations }

/-- One event. -/
def step (state : State τ) : Event τ → Option (State τ)
  | .connect => some { state with connecting := state.connecting + 1 }
  | .clusterConnected =>
      if 0 < state.connecting then
        some { state with
          connecting := state.connecting - 1
          connected := true
          initializing :=
            if state.isInitialized then state.initializing else state.initializing + 1 }
      else none
  | .clusterConnectFails =>
      if 0 < state.connecting then some { state with connecting := state.connecting - 1 }
      else none
  | .producerIdAnswered producerId =>
      if 0 < state.initializing then
        some { state with
          initializing := state.initializing - 1
          producerId := producerId
          producerSequence := fun _ => 0
          brokerMutexLocks := fun _ => none }
      else none
  | .initProducerIdFails =>
      if 0 < state.initializing then some { state with initializing := state.initializing - 1 }
      else none
  | .request nodeId entries =>
      if state.connected then some (state.acquireBrokerLock nodeId entries) else none
  | .lockTimeout index =>
      match state.tasks[index]? with
      | some { phase := .waiting lock, .. } =>
          -- the error comes before the `try`, so no lock is released
          some { state.setPhase index .ended with
            locks := Function.update state.locks lock ((state.locks lock).expire index) }
      | _ => none
  | .produce index =>
      match state.tasks[index]? with
      | some task =>
          match task.phase with
          | .acquired lock => some (state.produce index task lock)
          | .waiting _ | .producing _ _ | .ended => none
      | none => none
  | .answered index ok =>
      match state.tasks[index]? with
      | some task =>
          match task.phase with
          | .producing _ _ =>
              if ok then some (state.releaseBrokerLock index task)
              else
                some (State.releaseBrokerLock { state with
                  producerSequence := giveBackSequences state.isInitialized
                    state.producerSequence task.entries } index task)
          | .waiting _ | .acquired _ | .ended => none
      | none => none

/-! ## What should hold -/

/-- The call releases a lock that its task has acquired, and nobody else holds. -/
def Release.Own (release : Release) : Prop :=
  ∃ lock, release.acquired = some lock ∧ release.released = some lock ∧
    ∀ holder ∈ release.holders, holder = release.task

/-- Every produce request carries a producer id, no sequence is negative, and every call of
`releaseBrokerLock` releases the lock of its own task. -/
structure Safe (state : State τ) : Prop where
  producerId : ∀ request ∈ state.requests, request.producerId ≠ noProducerId
  sequences : (∀ topicPartition, 0 ≤ state.producerSequence topicPartition) ∧
    ∀ request ∈ state.requests, ∀ sequence ∈ request.firstSequences, 0 ≤ sequence
  releases : ∀ release ∈ state.releases, release.Own

/-- A send reaches `acquireBrokerLock` only once there is a producer id; a producer id is only
answered while no task is between `acquireBrokerLock` and `releaseBrokerLock`; and a request fails
only if no sequence of it was rotated by it or after it. -/
def Ready (state : State τ) : Event τ → Prop
  | .request _ _ => state.isInitialized = true
  | .producerIdAnswered _ => ∀ task ∈ state.tasks, task.phase.isEnded = true
  | .answered index false =>
      match state.tasks[index]? with
      | some { entries, phase := .producing _ rotations, .. } =>
          ∀ entry ∈ entries, state.rotations entry.1 = rotations entry.1
      | _ => True
  | _ => True

/-- `Ready` is decidable event by event. -/
instance (state : State τ) : ∀ event, Decidable (Ready state event)
  | .request _ _ => inferInstanceAs (Decidable (_ = _))
  | .producerIdAnswered _ => inferInstanceAs (Decidable (∀ _ ∈ _, _))
  | .answered index false =>
      match h : state.tasks[index]? with
      | some ⟨_, entries, .producing _ rotations⟩ =>
          decidable_of_iff (∀ entry ∈ entries, state.rotations entry.1 = rotations entry.1)
            (by simp [Ready, h])
      | some ⟨_, _, .waiting _⟩ | some ⟨_, _, .acquired _⟩ | some ⟨_, _, .ended⟩ | none =>
          isTrue (by simp [Ready, h])
  | .answered _ true | .connect | .clusterConnected | .clusterConnectFails
  | .initProducerIdFails | .lockTimeout _ | .produce _ => isTrue trivial

end KafkaJs.Producer.Connecting
