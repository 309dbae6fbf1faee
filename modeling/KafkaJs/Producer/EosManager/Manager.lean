import KafkaJs.Data.InsertionMap
import KafkaJs.Errors

/-!
# The transaction state of the eos manager

The synchronous parts of the eos manager: the state machine with its table of transitions and
its guards, the record of registered partitions and offsets, and what each operation does
between two awaits. Entering `READY` replaces the record by an empty one. Topics are of any type
with decidable equality: names that no record inherits.
-/

namespace KafkaJs.Producer.EosManager

open Data

/-- `transactionStates.js`. -/
inductive TransactionState where
  | uninitialized
  | ready
  | transacting
  | committing
  | aborting
  deriving DecidableEq, Repr

/-- `VALID_STATE_TRANSITIONS`. -/
def validTransitions : TransactionState → List TransactionState
  | .uninitialized => [.ready]
  | .ready => [.ready, .transacting]
  | .transacting => [.committing, .aborting]
  | .committing => [.ready]
  | .aborting => [.ready]

/-- The guarded methods. -/
inductive Method where
  | initProducerId
  | beginTransaction
  | addPartitionsToTransaction
  | sendOffsets
  | commit
  | abort
  deriving DecidableEq, Repr

/-- The legal states of the guarded methods. -/
def legalStates : Method → List TransactionState
  | .initProducerId => [.uninitialized, .ready]
  | .beginTransaction => [.ready]
  | .addPartitionsToTransaction => [.transacting]
  | .sendOffsets => [.transacting]
  | .commit => [.transacting]
  | .abort => [.transacting]

/-- The variables of a transactional eos manager that the transaction depends on. -/
structure Manager (τ : Type) where
  state : TransactionState
  transactionTopicPartitions : InsertionMap τ (InsertionMap Int Bool)
  hasOffsetsAddedToTransaction : Bool

/-- The error of an illegal call or transition. -/
def transactionStateException : KafkaError :=
  { name := .kafkaJSNonRetriableError, message := "Transaction state exception"
    retriable := some false }

/-- The error of writing to a property of `undefined`. -/
def cannotSetProperty : KafkaError :=
  { name := .typeError, message := "Cannot set properties of undefined", retriable := none }

variable {τ : Type}

/-- The guard of a method. -/
def Manager.legal (manager : Manager τ) (method : Method) : Bool :=
  (legalStates method).contains manager.state

/-- `transitionTo`, with the listener that empties the record on entry to `READY`. -/
def Manager.transitionTo (manager : Manager τ) (state : TransactionState) :
    Except KafkaError (Manager τ) :=
  if (validTransitions manager.state).contains state then
    .ok (if state = .ready then ⟨.ready, InsertionMap.empty, false⟩
      else { manager with state := state })
  else .error transactionStateException

/-- `isOngoing`: offsets or some partition are recorded. -/
def Manager.isOngoing (manager : Manager τ) : Bool :=
  manager.hasOffsetsAddedToTransaction ||
    manager.transactionTopicPartitions.entries.any fun topic =>
      topic.2.entries.any fun partition => partition.2

variable [DecidableEq τ]

/-- The partitions of a topic that are not recorded. -/
def missingPartitions (recorded : InsertionMap Int Bool) (partitions : List Int) : List Int :=
  partitions.filter fun partition => (recorded.get? partition).getD false = false

/-- The first loop of `addPartitionsToTransaction`: every topic gets its record, and the
partitions that are not recorded are collected by topic. -/
def Manager.collect (manager : Manager τ) (topicData : List (τ × List Int)) :
    Manager τ × InsertionMap τ (List Int) :=
  topicData.foldl (fun (manager, collected) (topic, partitions) =>
    let recorded := (manager.transactionTopicPartitions.get? topic).getD InsertionMap.empty
    let missing := missingPartitions recorded partitions
    ({ manager with
        transactionTopicPartitions := manager.transactionTopicPartitions.set topic recorded },
      if missing = [] then collected
      else collected.set topic ((collected.get? topic).getD [] ++ missing)))
    (manager, InsertionMap.empty)

/-- Record one partition in the current record, which may not know the topic. -/
def Manager.recordPartition (manager : Manager τ) (topic : τ) (partition : Int) :
    Except KafkaError (Manager τ) :=
  match manager.transactionTopicPartitions.get? topic with
  | none => .error cannotSetProperty
  | some recorded =>
      .ok { manager with
        transactionTopicPartitions :=
          manager.transactionTopicPartitions.set topic (recorded.set partition true) }

/-- The last loop of `addPartitionsToTransaction`. What was recorded before an error stays. -/
def Manager.recordPartitions :
    Manager τ → List (τ × Int) → Manager τ × Option KafkaError
  | manager, [] => (manager, none)
  | manager, (topic, partition) :: rest =>
      match manager.recordPartition topic partition with
      | .error error => (manager, some error)
      | .ok manager => manager.recordPartitions rest

/-- The pairs that the nested loop over the collected topics visits. -/
def collectedPartitions (collected : InsertionMap τ (List Int)) : List (τ × Int) :=
  collected.entries.flatMap fun entry => entry.2.map fun partition => (entry.1, partition)

/-! ## Entering `READY` -/

/-- The manager right after it became ready. -/
def Manager.fresh : Manager τ := ⟨.ready, InsertionMap.empty, false⟩

omit [DecidableEq τ] in
/-- A fresh manager has no ongoing transaction. -/
@[simp] theorem isOngoing_fresh : (Manager.fresh : Manager τ).isOngoing = false := rfl

/-! ## What the operations leave alone -/

/-- Collecting changes neither the state nor the offsets. -/
theorem collect_frame (manager : Manager τ) (topicData : List (τ × List Int)) :
    (manager.collect topicData).1.state = manager.state ∧
    (manager.collect topicData).1.hasOffsetsAddedToTransaction =
      manager.hasOffsetsAddedToTransaction := by
  unfold Manager.collect
  generalize (InsertionMap.empty : InsertionMap τ (List Int)) = collected
  induction topicData generalizing manager collected with
  | nil => exact ⟨rfl, rfl⟩
  | cons entry topicData ih =>
      rw [List.foldl_cons]
      obtain ⟨hstate, hoffsets⟩ := ih
        { manager with
          transactionTopicPartitions := manager.transactionTopicPartitions.set entry.1
            ((manager.transactionTopicPartitions.get? entry.1).getD InsertionMap.empty) } _
      exact ⟨hstate, hoffsets⟩

/-- Recording changes neither the state nor the offsets. -/
theorem recordPartitions_frame (manager : Manager τ) (partitions : List (τ × Int)) :
    (manager.recordPartitions partitions).1.state = manager.state ∧
    (manager.recordPartitions partitions).1.hasOffsetsAddedToTransaction =
      manager.hasOffsetsAddedToTransaction := by
  induction partitions generalizing manager with
  | nil => exact ⟨rfl, rfl⟩
  | cons entry partitions ih =>
      simp only [Manager.recordPartitions]
      cases hrecord : manager.recordPartition entry.1 entry.2 with
      | error error => exact ⟨rfl, rfl⟩
      | ok next =>
          unfold Manager.recordPartition at hrecord
          split at hrecord
          · cases hrecord
          · cases hrecord
            exact ih _

/-! ## Recorded partitions -/

/-- Something is recorded exactly if offsets are, or some partition of some topic. -/
theorem isOngoing_iff {manager : Manager τ} :
    manager.isOngoing = true ↔ manager.hasOffsetsAddedToTransaction = true ∨
      ∃ topic recorded partition, manager.transactionTopicPartitions.get? topic = some recorded ∧
        recorded.get? partition = some true := by
  simp only [Manager.isOngoing, Bool.or_eq_true, List.any_eq_true, Prod.exists,
    InsertionMap.mem_entries_iff]
  constructor
  · rintro (hoffsets | ⟨topic, recorded, hget, partition, _, hpartition, rfl⟩)
    · exact Or.inl hoffsets
    · exact Or.inr ⟨topic, recorded, partition, hget, hpartition⟩
  · rintro (hoffsets | ⟨topic, recorded, partition, hget, hpartition⟩)
    · exact Or.inl hoffsets
    · exact Or.inr ⟨topic, recorded, hget, partition, true, hpartition, rfl⟩

/-- Giving a topic its record records nothing. -/
theorem isOngoing_touch (manager : Manager τ) (topic : τ) :
    Manager.isOngoing { manager with
      transactionTopicPartitions := manager.transactionTopicPartitions.set topic
        ((manager.transactionTopicPartitions.get? topic).getD InsertionMap.empty) } =
      manager.isOngoing := by
  rw [Bool.eq_iff_iff, isOngoing_iff, isOngoing_iff]
  refine or_congr Iff.rfl ?_
  constructor
  · rintro ⟨other, recorded, partition, hget, hpartition⟩
    rw [InsertionMap.get?_set] at hget
    split at hget
    · next heq =>
        subst heq
        cases hold : manager.transactionTopicPartitions.get? other with
        | none =>
            rw [hold] at hget
            cases hget
            simp at hpartition
        | some old =>
            rw [hold] at hget
            cases hget
            exact ⟨other, old, partition, hold, hpartition⟩
    · exact ⟨other, recorded, partition, hget, hpartition⟩
  · rintro ⟨other, recorded, partition, hget, hpartition⟩
    refine ⟨other, recorded, partition, ?_, hpartition⟩
    rw [InsertionMap.get?_set]
    split
    · next heq =>
        subst heq
        rw [hget]
        rfl
    · exact hget

/-- Collecting records nothing. -/
theorem isOngoing_collect (manager : Manager τ) (topicData : List (τ × List Int)) :
    (manager.collect topicData).1.isOngoing = manager.isOngoing := by
  unfold Manager.collect
  generalize (InsertionMap.empty : InsertionMap τ (List Int)) = collected
  induction topicData generalizing manager collected with
  | nil => rfl
  | cons entry topicData ih =>
      rw [List.foldl_cons, ih]
      exact isOngoing_touch manager entry.1

end KafkaJs.Producer.EosManager
