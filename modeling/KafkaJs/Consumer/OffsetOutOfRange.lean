import KafkaJs.Consumer.OffsetManager
import KafkaJs.Consumer.ReadReplicas
import KafkaJs.Execution.Run

/-!
# Offsets out of range

A follower may lag behind, so that the offset of a fetch is out of its range. If the partition has a
preferred read replica, the consumer group is to forget it and to try the leader before it resets
the offset. But where it looks for the preferred replica it expects a number in the table, and
fetches record objects there: `onlyObjects_of_run`. `recovers_iff` says that the recovery is right
for the partitions without a preferred replica only.
-/

namespace KafkaJs.Consumer.OffsetOutOfRange

open Data Cluster ReadReplicas

/-- What stands in `preferredReadReplicasPerTopicPartition` under a partition. -/
inductive Entry where
  | number (nodeId : Int)
  | object (preference : Preference)

/-- `typeof`. -/
def typeOf : Option Entry → String
  | none => "undefined"
  | some (.number _) => "number"
  | some (.object _) => "object"

/-- `nodeId` and `expireAt` of an entry. -/
def Entry.preference : Entry → Option Preference
  | .number _ => none
  | .object preference => some preference

/-- A call of `setDefaultOffset`, with the offsets that its request commits. -/
structure Reset where
  topic : String
  partition : Int
  topics : OffsetTopics

/-- The fields of `ConsumerGroup` that fetches and recoveries read or write, and the calls of
`setDefaultOffset` that wait for an answer. -/
structure ConsumerGroup where
  metadataMaxAge : Int
  preferredReadReplicasPerTopicPartition : String → Option (InsertionMap Int Entry)
  offsetManager : OffsetManager
  resets : List Reset

/-- What happens to a consumer group. -/
inductive Event where
  /-- A fetch starts and looks up the nodes of partitions. -/
  | filterPartitions (now : Int) (partitions : List (String × Int))
  /-- A fetch is answered with preferred replicas of partitions, some of which are paused or sought
  by now. -/
  | fetched (now : Int) (skipped : String → Int → Bool)
      (responses : List (String × List (Int × Option Int)))
  /-- The offset manager is changed or replaced. -/
  | offsets (offsetManager : OffsetManager)
  /-- A fetch fails with an offset out of range. -/
  | outOfRange (topic : String) (partition : Int)
  /-- The answer to the call of `setDefaultOffset` at this place. -/
  | answered (index : Nat)
  | failed (index : Nat)

namespace ConsumerGroup

/-- A new consumer group. -/
def create (metadataMaxAge : Int) (offsetManager : OffsetManager) : ConsumerGroup :=
  { metadataMaxAge := metadataMaxAge
    preferredReadReplicasPerTopicPartition := fun _ => none
    offsetManager := offsetManager
    resets := [] }

/-- `preferredReadReplicasPerTopicPartition[topic][partition]`. -/
def entry (group : ConsumerGroup) (topic : String) (partition : Int) : Option Entry :=
  (group.preferredReadReplicasPerTopicPartition topic).bind fun entries => entries.get? partition

/-- Set the record of a topic. -/
def setEntries (group : ConsumerGroup) (topic : String)
    (preferredReadReplicas : Option (InsertionMap Int Entry)) : ConsumerGroup :=
  { group with
    preferredReadReplicasPerTopicPartition :=
      Function.update group.preferredReadReplicasPerTopicPartition topic preferredReadReplicas }

/-- `delete preferredReadReplicas[partition]`. -/
def deleteEntry (group : ConsumerGroup) (topic : String) (partition : Int) : ConsumerGroup :=
  group.setEntries topic ((group.preferredReadReplicasPerTopicPartition topic).map
    fun preferredReadReplicas => preferredReadReplicas.delete partition)

/-- `findReadReplicaForPartitions` drops an expired entry of a partition. -/
def dropExpired (now : Int) (group : ConsumerGroup) (place : String × Int) : ConsumerGroup :=
  match (group.entry place.1 place.2).bind Entry.preference with
  | none => group
  | some preference =>
      if now ≥ preference.expireAt then group.deleteEntry place.1 place.2 else group

/-- The node that `findReadReplicaForPartitions` picks for a partition with this entry. What it
finds offline is the leader. -/
def pickedNode (entry : Option Entry) (leader now : Int) (offline : Bool) : Int :=
  match entry.bind Entry.preference with
  | none => leader
  | some preference =>
      if now ≥ preference.expireAt ∨ offline = true then leader else preference.nodeId

/-- `fetch` records the preferred replica of a partition. -/
def recordPreference (expireAt : Int) (preferredReadReplicas : InsertionMap Int Entry)
    (partitionData : Int × Option Int) : InsertionMap Int Entry :=
  match partitionData.2 with
  | none => preferredReadReplicas
  | some nodeId =>
      if nodeId = -1 then preferredReadReplicas
      else preferredReadReplicas.set partitionData.1 (.object ⟨nodeId, expireAt⟩)

/-- `fetch` records the preferred replicas in the response for a topic. -/
def recordTopic (now : Int) (skipped : String → Int → Bool) (group : ConsumerGroup)
    (response : String × List (Int × Option Int)) : ConsumerGroup :=
  let partitions := response.2.filter fun partitionData =>
    skipped response.1 partitionData.1 = false
  group.setEntries response.1 (some (partitions.foldl
    (recordPreference (now + group.metadataMaxAge))
    ((group.preferredReadReplicasPerTopicPartition response.1).getD .empty)))

/-- `recoverFromOffsetOutOfRange` up to the answer of `setDefaultOffset`. -/
def recoverFromOffsetOutOfRange (group : ConsumerGroup) (topic : String) (partition : Int) :
    ConsumerGroup :=
  if typeOf (group.entry topic partition) = "number" then group.deleteEntry topic partition
  else
    match group.offsetManager.setDefaultOffset topic partition with
    | .ok topics => { group with resets := group.resets ++ [⟨topic, partition, topics⟩] }
    | .error _ => group

/-- A call of `setDefaultOffset` has ended. -/
def endReset (group : ConsumerGroup) (index : Nat) : ConsumerGroup :=
  { group with resets := group.resets.eraseIdx index }

end ConsumerGroup

/-- One step. -/
def step (group : ConsumerGroup) : Event → Option ConsumerGroup
  | .filterPartitions now partitions => some (partitions.foldl (.dropExpired now) group)
  | .fetched now skipped responses => some (responses.foldl (.recordTopic now skipped) group)
  | .offsets offsetManager => some { group with offsetManager := offsetManager }
  | .outOfRange topic partition => some (group.recoverFromOffsetOutOfRange topic partition)
  | .answered index =>
      group.resets[index]?.map fun reset =>
        { group.endReset index with
          offsetManager := group.offsetManager.clearOffsets reset.topic reset.partition }
  | .failed index => group.resets[index]?.map fun _ => group.endReset index

/-- A recorded preference is removed and nothing else, so that the partition is fetched from its
leader at the same offset. Without one the default offset is committed, and then the offsets of the
partition are cleared. -/
structure Recovers (group : ConsumerGroup) (topic : String) (partition : Int) : Prop where
  recorded : group.entry topic partition ≠ none →
    (∀ other id, (group.recoverFromOffsetOutOfRange topic partition).entry other id =
      if (other, id) = (topic, partition) then none else group.entry other id) ∧
    (group.recoverFromOffsetOutOfRange topic partition).resets = group.resets ∧
    (group.recoverFromOffsetOutOfRange topic partition).offsetManager = group.offsetManager ∧
    ∀ leader now offline, ConsumerGroup.pickedNode
      ((group.recoverFromOffsetOutOfRange topic partition).entry topic partition) leader now
        offline = leader
  unrecorded : group.entry topic partition = none →
    ∀ fromBeginning, group.offsetManager.topicConfigurations topic = some fromBeginning →
      (group.recoverFromOffsetOutOfRange topic partition).resets = group.resets ++
        [⟨topic, partition, [(topic, [(partition, .number (defaultOffset fromBeginning))])]⟩] ∧
      ∃ next, step (group.recoverFromOffsetOutOfRange topic partition)
          (.answered group.resets.length) = some next ∧
        next.resets = group.resets ∧
        next.offsetManager = group.offsetManager.clearOffsets topic partition ∧
        next.preferredReadReplicasPerTopicPartition =
          group.preferredReadReplicasPerTopicPartition

/-! ## The table -/

/-- Only objects stand in the record of a topic. -/
def ObjectsIn (entries : InsertionMap Int Entry) : Prop :=
  ∀ partition entry, entries.get? partition = some entry → ∃ preference, entry = .object preference

/-- Only objects stand in the table. -/
def OnlyObjects (group : ConsumerGroup) : Prop :=
  ∀ topic, ∀ entries ∈ group.preferredReadReplicasPerTopicPartition topic, ObjectsIn entries

variable {group next : ConsumerGroup} {topic : String} {partition now : Int}

/-- Recording objects for a topic keeps only objects. -/
theorem onlyObjects_setEntries (h : OnlyObjects group)
    {preferredReadReplicas : Option (InsertionMap Int Entry)}
    (hobjects : ∀ entries ∈ preferredReadReplicas, ObjectsIn entries) :
    OnlyObjects (group.setEntries topic preferredReadReplicas) := by
  intro other entries hentries
  by_cases hother : other = topic
  · subst hother
    rw [show (group.setEntries other preferredReadReplicas).preferredReadReplicasPerTopicPartition
      other = preferredReadReplicas from Function.update_self _ _ _] at hentries
    exact hobjects entries hentries
  · rw [show (group.setEntries topic preferredReadReplicas).preferredReadReplicasPerTopicPartition
      other = group.preferredReadReplicasPerTopicPartition other from
        Function.update_of_ne hother _ _] at hentries
    exact h other entries hentries

/-- Deleting a preference keeps only objects. -/
theorem onlyObjects_deleteEntry (h : OnlyObjects group) :
    OnlyObjects (group.deleteEntry topic partition) := by
  refine onlyObjects_setEntries h fun entries hentries id entry hentry => ?_
  obtain ⟨stored, hstored, rfl⟩ := Option.map_eq_some_iff.mp hentries
  rw [InsertionMap.get?_delete] at hentry
  split at hentry
  · cases hentry
  · exact h topic stored hstored id entry hentry

/-- Dropping expired preferences keeps only objects. -/
theorem onlyObjects_dropExpired (h : OnlyObjects group) (place : String × Int) :
    OnlyObjects (group.dropExpired now place) := by
  rw [ConsumerGroup.dropExpired]
  split
  · exact h
  · split
    · exact onlyObjects_deleteEntry h
    · exact h

/-- What is recorded is an object. -/
theorem objectsIn_recordPreference {expireAt : Int} {entries : InsertionMap Int Entry}
    (h : ObjectsIn entries) (partitionData : Int × Option Int) :
    ObjectsIn (ConsumerGroup.recordPreference expireAt entries partitionData) := by
  rw [ConsumerGroup.recordPreference]
  split
  · exact h
  · split
    · exact h
    · intro id entry hentry
      rw [InsertionMap.get?_set] at hentry
      split at hentry
      · exact ⟨_, (Option.some.inj hentry).symm⟩
      · exact h id entry hentry

/-- Recording the preferences of a response keeps only objects. -/
theorem onlyObjects_recordTopic (h : OnlyObjects group) (skipped : String → Int → Bool)
    (response : String × List (Int × Option Int)) :
    OnlyObjects (group.recordTopic now skipped response) := by
  refine onlyObjects_setEntries h fun entries hentries => ?_
  have hstart : ObjectsIn
      ((group.preferredReadReplicasPerTopicPartition response.1).getD .empty) := by
    cases hstored : group.preferredReadReplicasPerTopicPartition response.1 with
    | none => exact fun _ _ hnone => nomatch hnone
    | some stored => exact h response.1 stored hstored
  cases hentries
  exact List.foldlRecOn _ _ hstart fun _ hentries data _ =>
    objectsIn_recordPreference hentries data

/-- Every event keeps only objects. -/
theorem onlyObjects_step {event : Event} (h : OnlyObjects group)
    (hstep : step group event = some next) : OnlyObjects next := by
  cases event with
  | filterPartitions now partitions =>
      cases hstep
      exact List.foldlRecOn _ _ h fun _ hobjects place _ => onlyObjects_dropExpired hobjects place
  | fetched now skipped responses =>
      cases hstep
      exact List.foldlRecOn _ _ h fun _ hobjects response _ =>
        onlyObjects_recordTopic hobjects skipped response
  | offsets offsetManager =>
      cases hstep
      exact h
  | outOfRange topic partition =>
      cases hstep
      rw [ConsumerGroup.recoverFromOffsetOutOfRange]
      split
      · exact onlyObjects_deleteEntry h
      · split
        · exact h
        · exact h
  | answered index =>
      obtain ⟨reset, _, rfl⟩ := Option.map_eq_some_iff.mp hstep
      exact h
  | failed index =>
      obtain ⟨reset, _, rfl⟩ := Option.map_eq_some_iff.mp hstep
      exact h

/-- A new group has no preferences. -/
theorem onlyObjects_create (metadataMaxAge : Int) (offsetManager : OffsetManager) :
    OnlyObjects (.create metadataMaxAge offsetManager) := by
  intro topic entries hnone
  cases hnone

/-- Every recorded preference is an object. -/
theorem onlyObjects_of_run {metadataMaxAge : Int} {offsetManager : OffsetManager}
    {events : List Event}
    (hrun : Execution.run step (.create metadataMaxAge offsetManager) events = some group) :
    OnlyObjects group :=
  Execution.invariant_of_run (fun _ _ _ h hstep => onlyObjects_step h hstep)
    (onlyObjects_create metadataMaxAge offsetManager) hrun

/-- No recorded preference is a number. -/
theorem OnlyObjects.typeOf_ne (h : OnlyObjects group) (topic : String) (partition : Int) :
    typeOf (group.entry topic partition) ≠ "number" := by
  cases hentry : group.entry topic partition with
  | none => decide
  | some entry =>
      obtain ⟨entries, hentries, hget⟩ := Option.bind_eq_some_iff.mp hentry
      obtain ⟨preference, rfl⟩ := h topic entries hentries partition entry hget
      show "object" ≠ "number"
      decide

/-! ## The recovery -/

/-- The recovery never touches the table. -/
theorem entry_recoverFromOffsetOutOfRange (h : OnlyObjects group) (other : String) (id : Int) :
    (group.recoverFromOffsetOutOfRange topic partition).entry other id = group.entry other id := by
  rw [ConsumerGroup.recoverFromOffsetOutOfRange, if_neg (h.typeOf_ne topic partition)]
  split
  · rfl
  · rfl

/-- A group with only objects always goes back to the default offset. -/
theorem recoverFromOffsetOutOfRange_default (h : OnlyObjects group) {fromBeginning : Bool}
    (htopic : group.offsetManager.topicConfigurations topic = some fromBeginning) :
    group.recoverFromOffsetOutOfRange topic partition =
      { group with
        resets := group.resets ++ [⟨topic, partition,
          [(topic, [(partition, .number (defaultOffset fromBeginning))])]⟩] } := by
  rw [ConsumerGroup.recoverFromOffsetOutOfRange, if_neg (h.typeOf_ne topic partition),
    OffsetManager.setDefaultOffset, htopic]

/-- In every state that is reached the recovery is right for the partitions for which no preferred
read replica is recorded, and for no others. -/
theorem recovers_iff {metadataMaxAge : Int} {offsetManager : OffsetManager} {events : List Event}
    (hrun : Execution.run step (.create metadataMaxAge offsetManager) events = some group)
    (topic : String) (partition : Int) :
    Recovers group topic partition ↔ group.entry topic partition = none := by
  have hobjects := onlyObjects_of_run hrun
  constructor
  · intro h
    by_contra hentry
    have hremoved := (h.recorded hentry).1 topic partition
    rw [if_pos rfl, entry_recoverFromOffsetOutOfRange hobjects] at hremoved
    exact hentry hremoved
  · intro hentry
    refine ⟨fun hne => absurd hentry hne, fun _ fromBeginning htopic => ?_⟩
    rw [recoverFromOffsetOutOfRange_default hobjects htopic]
    refine ⟨rfl, ?_⟩
    rw [step, List.getElem?_concat_length]
    refine ⟨_, rfl, ?_, rfl, rfl⟩
    show (group.resets ++ [_]).eraseIdx group.resets.length = group.resets
    rw [List.eraseIdx_append_of_length_le (Nat.le_refl _), Nat.sub_self]
    exact List.append_nil _

/-! ## Samples -/

/-- An offset manager with one partition, of which offsets are resolved and committed. -/
def sampleOffsets : OffsetManager :=
  { autoCommit := true
    memberAssignment := ⟨InsertionMap.empty.set "t" [0], noProto_single⟩
    topicConfigurations := fun topic => if topic = "t" then some false else none
    resolvedOffsets := fun _ => InsertionMap.empty.set 0 (some (.ofInt 5))
    committedOffsets := fun _ => some (.ofInt 3) }

/-- After its time the preferred read replica is dropped, and the offset may be reset. -/
theorem recovers_sample :
    ∃ group, Execution.run step (.create 300000 sampleOffsets)
        [.fetched 0 (fun _ _ => false) [("t", [(0, some 2)])],
          .filterPartitions 300000 [("t", 0)]] = some group ∧
      Recovers group "t" 0 :=
  ⟨_, rfl, (recovers_iff (show Execution.run step _ [.fetched 0 (fun _ _ => false)
    [("t", [(0, some 2)])], .filterPartitions 300000 [("t", 0)]] = _ from rfl) "t" 0).mpr rfl⟩

/-- A fetch records node 2 as the preferred read replica, from which the next fetch fails. The
latest offset is committed, the offsets are lost and the preference stays. -/
theorem not_recovers_object :
    ∃ group last, Execution.run step (.create 300000 sampleOffsets)
        [.fetched 0 (fun _ _ => false) [("t", [(0, some 2)])]] = some group ∧
      ¬ Recovers group "t" 0 ∧
      Execution.run step group [.outOfRange "t" 0, .answered 0] = some last ∧
      group.offsetManager.resolvedOffset "t" 0 = some (.ofInt 5) ∧
      last.offsetManager.resolvedOffset "t" 0 = none ∧
      last.entry "t" 0 = some (.object ⟨2, 300000⟩) := by
  refine ⟨_, _, rfl, fun h => ?_, rfl, rfl, rfl, rfl⟩
  have hremoved := (h.recorded nofun).1 "t" 0
  cases hremoved

end KafkaJs.Consumer.OffsetOutOfRange
