import KafkaJs.Producer.EosManager.Transactions
import KafkaJs.Producer.SendMessages
import KafkaJs.Utils.Lock

/-!
# Transactions of one producer

`producer.transaction()` returns transaction objects that share one eos manager. The guard of a
transaction object is evaluated when `send`, `commit` or `abort` is called; afterwards a send
goes on by itself. Every attempt starts one task for each broker: the task acquires the broker's
lock, registers its partitions with the transaction coordinator, and produces. Between two awaits
anything else may happen, the end of the transaction and the start of the next one included.

The machine combines the runs of `EosManager` (for `sendOffsets`, `commit` and `abort`) with one
`SendState` for each call of `send` or `sendBatch`. Transactions are numbered as the manager
counts them, and a call carries the number of the object it was made on. The producer id is
initialised. A call that a guard or a validation rejects changes nothing, so it is not an event.
-/

namespace KafkaJs.Producer.Transaction

open Data Cluster Utils

/-- Where the task of a produce request stands: waiting for the broker's lock, holding it,
looking up the coordinator with the partitions to add, waiting for the coordinator's answer, with
all partitions added, or waiting for the answer to the produce request. -/
inductive TaskStage where
  | queued
  | locked
  | lookup (collected : InsertionMap String (List Int))
  | adding (collected : InsertionMap String (List Int))
  | registered
  | producing

/-- A task, by its call, its attempt and its broker. -/
structure TaskId where
  number : Nat
  attempt : Nat
  broker : Broker
  deriving DecidableEq, Repr

/-- A call of `send` or `sendBatch` on a transaction object. -/
structure Send (μ σ : Type) where
  transaction : Nat
  config : SendConfig μ σ
  call : SendState μ σ

/-- What the specifications observe: a transaction begins, a request for the messages of a
transaction object goes out, or a transaction's `EndTxn` does. -/
inductive Observation (μ : Type) where
  | began (transaction : Nat)
  | addPartitionsToTxn (transaction : Nat) (topics : List (String × List Int))
  | produce (transaction : Nat) (topicData : List (TopicData μ))
  | endTxn (transaction : Nat)
  deriving DecidableEq, Repr

/-- The producer with its transaction objects and its calls. -/
structure State (μ σ : Type) where
  eos : EosManager.State String
  partitioner : σ
  sends : List (Send μ σ)
  brokerMutexLocks : Int → Lock TaskId
  stage : TaskId → TaskStage
  /-- The object whose `commit` or `abort` waits for the coordinator. -/
  ending : Nat
  /-- The objects whose `commit` or `abort` is about to set `transactionDidEnd`. -/
  ended : List Nat
  transactionDidEnd : Nat → Bool
  trace : List (Observation μ)

/-- What may happen next. Tasks are named by the number of their call and their place among its
requests in flight. -/
inductive Event (μ : Type) where
  | transaction
  | send (transaction : Nat) (topicMessages : List (String × List μ))
  | sendOffsets (transaction : Nat) (consumerGroupId : Option String)
      (topics : Option (List (String × List (Int × Int))))
  | commit (transaction : Nat)
  | abort (transaction : Nat)
  | didEnd (transaction : Nat)
  | found (index : Nat)
  | applied (index : Nat)
  | answered (index : Nat)
  | failed (index : Nat) (retry : Bool)
  | attempt (number : Nat) (view : ClusterView) (recovery : Recovery)
  | attemptFails (number : Nat) (error : KafkaError) (recovery : Option Recovery)
  | lockTimeout (number index : Nat) (error : KafkaError) (recovery : Recovery)
  | register (number index : Nat) (recovery : Recovery)
  | coordinatorFound (number index : Nat)
  | partitionsAdded (number index : Nat) (recovery : Recovery)
  | registrationFails (number index : Nat) (error : KafkaError) (recovery : Recovery)
  | produce (number index : Nat)
  | answer (number index : Nat) (answer : String → Int → PartitionAnswer) (recovery : Recovery)
  | fail (number index : Nat) (error : KafkaError) (recovery : Recovery)

variable {μ σ : Type}

/-- Once the producer id is initialised. -/
def State.initial (partitioner : σ) : State μ σ :=
  { eos := EosManager.State.initial
    partitioner := partitioner
    sends := []
    brokerMutexLocks := fun _ => Lock.free
    stage := fun _ => .queued
    ending := 0
    ended := []
    transactionDidEnd := fun _ => false
    trace := [] }

/-- `isActive` of a transaction object: some transaction goes on, and this object did not end.
The objects that exist are those up to the current transaction. -/
def State.isActive (state : State μ σ) (transaction : Nat) : Bool :=
  state.eos.manager.state = .transacting ∧ state.transactionDidEnd transaction = false ∧
    transaction ≤ state.eos.transaction

/-- The manager fires an event of its own. -/
def State.manage (state : State μ σ) (event : EosManager.Event String) : Option (State μ σ) :=
  (EosManager.step state.eos event).map fun eos => { state with eos := eos }

/-- `commit` or `abort` on a transaction object. Without a registration the manager is ready at
once and the object is about to be marked. -/
def State.endTransaction (state : State μ σ) (transaction : Nat)
    (event : EosManager.Event String) : Option (State μ σ) :=
  if state.isActive transaction then
    (state.manage event).map fun state =>
      if state.eos.manager.state = .ready then
        { state with ended := state.ended ++ [transaction] }
      else { state with ending := transaction }
  else none

/-- Whether the request at an index is an `EndTxn`. -/
def State.endTxnAt (state : State μ σ) (index : Nat) : Option Nat :=
  match state.eos.inFlight[index]? with
  | none => none
  | some pending =>
      match pending.call with
      | .endTxn _ => some pending.transaction
      | .addPartitions _ | .sendOffsets | .txnOffsetCommit => none

/-! ## Calls and their tasks -/

/-- One event of a call, which shares the partitioner with all others. -/
def State.stepSend (state : State μ σ) (number : Nat) (event : SendEvent) :
    Option (State μ σ) :=
  match state.sends[number]? with
  | none => none
  | some send =>
      (Producer.step send.config { send.call with partitioner := state.partitioner } event).map
        fun call =>
          { state with
            partitioner := call.partitioner
            sends := state.sends.set number { send with call := call } }

/-- The task of a request. -/
def taskOf (number : Nat) (request : Request μ) : TaskId :=
  ⟨number, request.attempt, request.broker⟩

/-- `acquireBrokerLock` at the start of a task. -/
def State.acquireBrokerLock (number : Nat) (state : State μ σ) (request : Request μ) :
    State μ σ :=
  let (lock, acquired) := (state.brokerMutexLocks request.broker.nodeId).acquire
    (taskOf number request)
  { state with
    brokerMutexLocks := Function.update state.brokerMutexLocks request.broker.nodeId lock
    stage := Function.update state.stage (taskOf number request)
      (if acquired then .locked else .queued) }

/-- `releaseBrokerLock` at the end of a task; the first waiter takes the lock. -/
def State.releaseBrokerLock (state : State μ σ) (broker : Broker) : State μ σ :=
  let (lock, next) := (state.brokerMutexLocks broker.nodeId).release
  { state with
    brokerMutexLocks := Function.update state.brokerMutexLocks broker.nodeId lock
    stage := match next with
      | none => state.stage
      | some task => Function.update state.stage task .locked }

/-- The requests that an attempt added to those in flight. -/
def State.newRequests (before after : State μ σ) (number : Nat) : List (Request μ) :=
  match before.sends[number]?, after.sends[number]? with
  | some old, some new => new.call.inFlight.drop old.call.inFlight.length
  | _, _ => []

/-- The call with the given number and the request of one of its tasks. -/
def State.task (state : State μ σ) (number index : Nat) : Option (Send μ σ × Request μ) :=
  match state.sends[number]? with
  | none => none
  | some send => (send.call.inFlight[index]?).map fun request => (send, request)

/-- A task that holds the lock ends with an event of its call. -/
def State.endTask (state : State μ σ) (number : Nat) (request : Request μ) (event : SendEvent) :
    Option (State μ σ) :=
  (state.stepSend number event).map fun state => state.releaseBrokerLock request.broker

/-- A task moves on to a new stage. -/
def State.moveTo (state : State μ σ) (number : Nat) (request : Request μ) (stage : TaskStage) :
    State μ σ :=
  { state with stage := Function.update state.stage (taskOf number request) stage }

/-- The topic-partitions of a request. -/
def topicPartitions (topicData : List (TopicData μ)) : List (String × List Int) :=
  topicData.map fun data => (data.topic, data.partitions.map PartitionData.partition)

/-- `addPartitionsToTransaction` up to its first await. -/
def State.addPartitionsToTransaction (state : State μ σ) (number index : Nat)
    (request : Request μ) (recovery : Recovery) : Option (State μ σ) :=
  if state.eos.manager.legal .addPartitionsToTransaction then
    let (manager, collected) := state.eos.manager.collect (topicPartitions request.topicData)
    some (State.moveTo { state with eos := { state.eos with manager := manager } } number request
      (if collected.entries = [] then .registered else .lookup collected))
  else
    state.endTask number request
      (.fail index EosManager.transactionStateException recovery)

/-- The rest of `addPartitionsToTransaction`, once the coordinator answered. -/
def State.recordPartitions (state : State μ σ) (number index : Nat) (request : Request μ)
    (collected : InsertionMap String (List Int)) (recovery : Recovery) : Option (State μ σ) :=
  let (manager, failed) :=
    state.eos.manager.recordPartitions (EosManager.collectedPartitions collected)
  let state := { state with eos := { state.eos with manager := manager } }
  match failed with
  | none => some (state.moveTo number request .registered)
  | some error => state.endTask number request (.fail index error recovery)

/-- One event of a task. -/
def State.stepTask (state : State μ σ) (number index : Nat)
    (act : Send μ σ → Request μ → TaskStage → Option (State μ σ)) : Option (State μ σ) :=
  match state.task number index with
  | none => none
  | some (send, request) => act send request (state.stage (taskOf number request))

/-! ## The machine -/

/-- What the producer is created with. -/
structure Config (μ σ : Type) where
  partitioner : Partitioner μ σ
  retries : Nat

/-- The parameters of a call; a transactional producer requires all acknowledgements. -/
def Config.sendConfig (config : Config μ σ) (topicMessages : List (String × List μ)) :
    SendConfig μ σ :=
  { partitioner := config.partitioner
    topicMessages := mergeTopicMessages topicMessages
    acks := -1
    retries := config.retries }

/-- One event. -/
def step (config : Config μ σ) (state : State μ σ) : Event μ → Option (State μ σ)
  | .transaction =>
      (state.manage .beginTransaction).map fun state =>
        { state with trace := state.trace ++ [.began state.eos.transaction] }
  | .send transaction topicMessages =>
      -- `transactionalGuard`: the call throws once the transaction has ended
      if state.isActive transaction then
        some { state with
          sends := state.sends ++ [⟨transaction, config.sendConfig topicMessages,
            SendState.initial state.partitioner⟩] }
      else none
  | .sendOffsets transaction consumerGroupId topics =>
      if state.isActive transaction then state.manage (.sendOffsets consumerGroupId topics)
      else none
  | .commit transaction => state.endTransaction transaction .commit
  | .abort transaction => state.endTransaction transaction .abort
  | .didEnd transaction =>
      if transaction ∈ state.ended then
        some { state with
          ended := state.ended.erase transaction
          transactionDidEnd := Function.update state.transactionDidEnd transaction true }
      else none
  | .found index =>
      (state.manage (.found index)).map fun next =>
        match state.endTxnAt index with
        | none => next
        | some transaction => { next with trace := next.trace ++ [.endTxn transaction] }
  | .applied index => state.manage (.applied index)
  | .answered index =>
      (state.manage (.answered index)).map fun next =>
        match state.endTxnAt index with
        | none => next
        | some _ => { next with ended := next.ended ++ [next.ending] }
  | .failed index retry => state.manage (.failed index retry)
  | .attempt number view recovery =>
      (state.stepSend number (.attempt view recovery)).map fun next =>
        -- every new request asks for the lock of its broker
        (state.newRequests next number).foldl (State.acquireBrokerLock number) next
  | .attemptFails number error recovery => state.stepSend number (.attemptFails error recovery)
  | .lockTimeout number index error recovery =>
      state.stepTask number index fun _ request stage =>
        match stage with
        | .queued =>
            (state.stepSend number (.lockFails index error recovery)).map fun next =>
              { next with
                brokerMutexLocks := Function.update next.brokerMutexLocks request.broker.nodeId
                  ((next.brokerMutexLocks request.broker.nodeId).expire
                    (taskOf number request)) }
        | _ => none
  | .register number index recovery =>
      state.stepTask number index fun _ request stage =>
        match stage with
        | .locked => state.addPartitionsToTransaction number index request recovery
        | _ => none
  | .coordinatorFound number index =>
      state.stepTask number index fun send request stage =>
        match stage with
        | .lookup collected =>
            some (State.moveTo { state with
              trace := state.trace ++ [.addPartitionsToTxn send.transaction collected.entries] }
              number request (.adding collected))
        | _ => none
  | .partitionsAdded number index recovery =>
      state.stepTask number index fun _ request stage =>
        match stage with
        | .adding collected => state.recordPartitions number index request collected recovery
        | _ => none
  | .registrationFails number index error recovery =>
      state.stepTask number index fun _ request stage =>
        match stage with
        | .lookup _ | .adding _ => state.endTask number request (.fail index error recovery)
        | _ => none
  | .produce number index =>
      state.stepTask number index fun send request stage =>
        match stage with
        | .registered =>
            some (State.moveTo { state with
              trace := state.trace ++ [.produce send.transaction request.topicData] }
              number request .producing)
        | _ => none
  | .answer number index answer recovery =>
      state.stepTask number index fun _ request stage =>
        match stage with
        | .producing => state.endTask number request (.answer index answer recovery)
        | _ => none
  | .fail number index error recovery =>
      state.stepTask number index fun _ request stage =>
        match stage with
        | .producing => state.endTask number request (.fail index error recovery)
        | _ => none

end KafkaJs.Producer.Transaction
