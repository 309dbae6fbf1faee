import KafkaJs.Data.InsertionMap
import KafkaJs.Data.Traversal
import KafkaJs.Errors

/-!
# Cluster metadata as one attempt sees it

`ClusterView` is what `Cluster` answers during one attempt: the topic metadata last fetched, the
broker objects of the pool, and which of them cannot be connected to. The main results are
`findLeaderForPartitions_ok`, which says that the partitions collected under a node are exactly
the given partitions with that leader, in order, and `findLeaderForPartitions_keys`.
-/

namespace KafkaJs.Cluster

open Data

/-- One entry of a topic's `partitionMetadata`; `leader` is `none` where it is null. -/
structure PartitionMetadata where
  partitionId : Int
  leader : Option Int
  deriving DecidableEq, Repr

/-- A broker object: its identity in memory and its node id. The pool may hold different objects
for one node at different times. -/
structure Broker where
  handle : Nat
  nodeId : Int
  deriving DecidableEq, Repr

/-- The cluster during one attempt. -/
structure ClusterView where
  topicMetadata : List (String × List PartitionMetadata)
  /-- `brokerPool.brokers`, by node id. -/
  pool : Int → Option Nat
  /-- The error of connecting to a node, if connecting fails. -/
  connectError : Int → Option KafkaError

/-- `findTopicPartitionMetadata`: the topic's entries, none if the topic is unknown. -/
def findTopicPartitionMetadata (view : ClusterView) (topic : String) : List PartitionMetadata :=
  ((view.topicMetadata.find? fun entry => entry.1 = topic).map Prod.snd).getD []

/-- `findBroker`: the pooled object of a node, once connected. -/
def findBroker (view : ClusterView) (nodeId : Int) : Except KafkaError Broker :=
  match view.pool nodeId with
  | none =>
      .error { name := .kafkaJSBrokerNotFound, message := "Broker not found in the cached metadata" }
  | some handle =>
      match view.connectError nodeId with
      | some error => .error error
      | none => .ok ⟨handle, nodeId⟩

/-- The broker found for a node is the pooled one. -/
theorem findBroker_ok {view : ClusterView} {nodeId : Int} {broker : Broker}
    (h : findBroker view nodeId = .ok broker) :
    broker.nodeId = nodeId ∧ view.pool nodeId = some broker.handle := by
  unfold findBroker at h
  split at h
  · cases h
  · next handle hpool =>
      split at h
      · cases h
      · cases h
        exact ⟨rfl, hpool⟩

/-- Two pooled brokers of one node are the same object. -/
theorem eq_of_pooled {pool : Int → Option Nat} {first second : Broker}
    (hfirst : pool first.nodeId = some first.handle)
    (hsecond : pool second.nodeId = some second.handle) (hnode : first.nodeId = second.nodeId) :
    first = second := by
  obtain ⟨firstHandle, firstNode⟩ := first
  obtain ⟨secondHandle, secondNode⟩ := second
  cases hnode
  cases hfirst.symm.trans hsecond
  rfl

/-- The metadata entry of a partition. -/
def partitionEntry (metadata : List PartitionMetadata) (partition : Int) :
    Option PartitionMetadata :=
  metadata.find? fun entry => entry.partitionId = partition

/-- The leader of a partition; `none` if the partition has no entry or no leader. -/
def leaderOf (metadata : List PartitionMetadata) (partition : Int) : Option Int :=
  (partitionEntry metadata partition).bind PartitionMetadata.leader

/-- The error thrown for a partition whose leader is null. -/
def invalidPartitionMetadata : KafkaError :=
  { name := .kafkaJSError, message := "Invalid partition metadata" }

/-- One step of the reduction in `findLeaderForPartitions`. -/
def addPartition (metadata : List PartitionMetadata) (result : InsertionMap Int (List Int))
    (partition : Int) : Except KafkaError (InsertionMap Int (List Int)) :=
  match partitionEntry metadata partition with
  | none => .ok result
  | some entry =>
      match entry.leader with
      | none => .error invalidPartitionMetadata
      | some leader =>
          .ok (result.set leader ((result.get? leader).getD [] ++ [partition]))

/-- `findLeaderForPartitions`: the partitions grouped by leader. Partitions without a metadata
entry are left out. -/
def findLeaderForPartitions (metadata : List PartitionMetadata) (partitions : List Int) :
    Except KafkaError (InsertionMap Int (List Int)) :=
  partitions.foldlM (addPartition metadata) InsertionMap.empty

/-- What one successful step of the reduction does. -/
theorem addPartition_cases {metadata : List PartitionMetadata}
    {result next : InsertionMap Int (List Int)} {partition : Int}
    (h : addPartition metadata result partition = .ok next) :
    (partitionEntry metadata partition = none ∧ leaderOf metadata partition = none ∧
      next = result) ∨
    ∃ leader, leaderOf metadata partition = some leader ∧
      next = result.set leader ((result.get? leader).getD [] ++ [partition]) := by
  rw [addPartition] at h
  rw [leaderOf]
  cases hentry : partitionEntry metadata partition with
  | none =>
      rw [hentry] at h
      cases h
      exact Or.inl ⟨rfl, rfl, rfl⟩
  | some entry =>
      cases hleader : entry.leader with
      | none =>
          simp only [hentry, hleader] at h
          cases h
      | some leader =>
          simp only [hentry, hleader] at h
          cases h
          exact Or.inr ⟨leader, hleader, rfl⟩

/-- What it adds under a node. -/
theorem addPartition_ok {metadata : List PartitionMetadata}
    {result next : InsertionMap Int (List Int)} {partition : Int}
    (h : addPartition metadata result partition = .ok next) (leader : Int) :
    (next.get? leader).getD [] =
      (result.get? leader).getD [] ++
        [partition].filter (fun id => leaderOf metadata id = some leader) := by
  rcases addPartition_cases h with ⟨_, hnone, rfl⟩ | ⟨found, hfound, rfl⟩
  · simp [hnone]
  · by_cases heq : leader = found
    · simp [heq, hfound]
    · simp [InsertionMap.get?_set_of_ne _ _ heq, hfound, Ne.symm heq]

/-- The partitions collected under a node are the given ones with that leader, in order. -/
theorem findLeaderForPartitions_ok {metadata : List PartitionMetadata} {partitions : List Int}
    {result : InsertionMap Int (List Int)}
    (h : findLeaderForPartitions metadata partitions = .ok result) (leader : Int) :
    (result.get? leader).getD [] =
      partitions.filter fun id => leaderOf metadata id = some leader := by
  suffices hfold : ∀ (partitions : List Int) (start result : InsertionMap Int (List Int)),
      partitions.foldlM (addPartition metadata) start = .ok result →
      (result.get? leader).getD [] = (start.get? leader).getD [] ++
        partitions.filter fun id => leaderOf metadata id = some leader by
    simpa using hfold partitions _ _ h
  intro partitions
  induction partitions with
  | nil =>
      intro start result h
      cases h
      simp
  | cons partition rest ih =>
      intro start result h
      rw [List.foldlM_cons] at h
      obtain ⟨next, hstep, hrest⟩ := bind_eq_ok h
      rw [ih next result hrest, addPartition_ok hstep leader, List.append_assoc,
        ← List.filter_append, List.singleton_append]

/-- One step adds a key only for a partition led by it. -/
theorem addPartition_keys {metadata : List PartitionMetadata}
    {result next : InsertionMap Int (List Int)} {partition leader : Int}
    (h : addPartition metadata result partition = .ok next) :
    leader ∈ next.keys ↔ leader ∈ result.keys ∨ leaderOf metadata partition = some leader := by
  rcases addPartition_cases h with ⟨_, hnone, rfl⟩ | ⟨found, hfound, rfl⟩
  · simp [hnone]
  · rw [InsertionMap.mem_keys_set, hfound, Option.some_inj]
    exact or_comm.trans (or_congr_right eq_comm)

/-- The nodes under which partitions are collected are the leaders of the given partitions. -/
theorem findLeaderForPartitions_keys {metadata : List PartitionMetadata} {partitions : List Int}
    {result : InsertionMap Int (List Int)}
    (h : findLeaderForPartitions metadata partitions = .ok result) {leader : Int} :
    leader ∈ result.keys ↔ ∃ id ∈ partitions, leaderOf metadata id = some leader := by
  suffices hfold : ∀ (partitions : List Int) (start result : InsertionMap Int (List Int)),
      partitions.foldlM (addPartition metadata) start = .ok result →
      (leader ∈ result.keys ↔
        leader ∈ start.keys ∨ ∃ id ∈ partitions, leaderOf metadata id = some leader) by
    simpa [InsertionMap.keys, InsertionMap.empty] using hfold partitions _ _ h
  intro partitions
  induction partitions with
  | nil =>
      intro start result h
      cases h
      simp
  | cons partition rest ih =>
      intro start result h
      rw [List.foldlM_cons] at h
      obtain ⟨next, hstep, hrest⟩ := bind_eq_ok h
      rw [ih next result hrest, addPartition_keys hstep, or_assoc]
      simp

/-- The reduction completes only if every given partition with an entry has a leader. -/
theorem findLeaderForPartitions_leader {metadata : List PartitionMetadata}
    {partitions : List Int} {result : InsertionMap Int (List Int)}
    (h : findLeaderForPartitions metadata partitions = .ok result) {partition : Int}
    (hmem : partition ∈ partitions) {entry : PartitionMetadata}
    (hentry : partitionEntry metadata partition = some entry) :
    ∃ leader, leaderOf metadata partition = some leader := by
  unfold findLeaderForPartitions at h
  generalize InsertionMap.empty = start at h
  induction partitions generalizing start with
  | nil => simp at hmem
  | cons first rest ih =>
      rw [List.foldlM_cons] at h
      obtain ⟨next, hstep, hrest⟩ := bind_eq_ok h
      rcases List.mem_cons.mp hmem with rfl | hmem
      · rcases addPartition_cases hstep with ⟨hnone, _⟩ | ⟨leader, hleader, _⟩
        · cases hentry.symm.trans hnone
        · exact ⟨leader, hleader⟩
      · exact ih hmem next hrest

end KafkaJs.Cluster
