import KafkaJs.Cluster.TopicOffsets

/-!
# Offset managers

The offset manager of a consumer holds two positions for a partition: the resolved offset, up to
which messages are processed, and the committed offset. Both maps hold what their callers put into
them: strings, numbers or `Long` objects, which `===` distinguishes although they stand for one
number.

`resolveOffsets` finds a committed offset for the assigned partitions that have none: what the group
has committed, and else the earliest or latest offset of the partition. `InitialOffsets` is about
this; `SeekModes`, `UncommittedOffsets` and `OffsetOutOfRange` are about the other operations.
-/

namespace KafkaJs.Consumer

open Data Cluster

/-- An offset in a map: a string in one of its spellings, of which the first is the decimal one, a
number, or a `Long` object. -/
inductive Offset where
  | string (value : Int) (spelling : Nat)
  | number (value : Int)
  | long (value : Int) (object : Nat)
  deriving DecidableEq

/-- The number that an offset stands for: `Long.fromValue`. -/
def Offset.value : Offset → Int
  | .string value _ => value
  | .number value => value
  | .long value _ => value

/-- `toString` of a `Long`, and of the offsets in responses. -/
def Offset.ofInt (value : Int) : Offset := .string value 0

/-- An offset made of an integer has this value. -/
@[simp] theorem Offset.value_ofInt (value : Int) : (Offset.ofInt value).value = value := rfl

/-- A member assignment, as `MemberAssignment.decode` makes it: `__proto__` cannot be stored in the
record that it builds. -/
structure MemberTopics where
  partitions : InsertionMap String (List Int)
  noProto : "__proto__" ∉ partitions.keys

/-- The record of a single topic can be decoded. -/
theorem noProto_single :
    "__proto__" ∉ (InsertionMap.empty.set "t" [0] : InsertionMap String (List Int)).keys := by
  decide

/-- `OffsetManager`. The committed offsets are those of the group, which the cluster keeps; a
partition under which there is nothing, and one under which there is undefined, are not told apart
there. -/
structure OffsetManager where
  autoCommit : Bool
  memberAssignment : MemberTopics
  /-- `fromBeginning` of the topics that are subscribed to. -/
  topicConfigurations : String → Option Bool
  resolvedOffsets : String → InsertionMap Int (Option Offset)
  committedOffsets : String × Int → Option Offset

/-- Offsets by topic, in a request to commit them. -/
abbrev OffsetTopics := List (String × List (Int × Offset))

/-- Looking for an offset in undefined, or comparing undefined with zero. -/
def undefinedOffset : KafkaError :=
  { name := .typeError, message := "Cannot read properties of undefined", retriable := none }

namespace OffsetManager

/-- `constructor`. `clearAllOffsets` removes the offsets that the group has in the cluster. -/
def create (autoCommit : Bool) (memberAssignment : MemberTopics)
    (topicConfigurations : String → Option Bool) : OffsetManager :=
  { autoCommit := autoCommit
    memberAssignment := memberAssignment
    topicConfigurations := topicConfigurations
    resolvedOffsets := fun _ => .empty
    committedOffsets := fun _ => none }

/-- `isInvalidOffset`. The number 0 is falsy, but valid. -/
def isInvalidOffset (offset : Option Offset) : Bool :=
  match offset with
  | none => true
  | some offset => offset.value < 0

/-- Whether `!offset` holds. -/
def isFalsy (offset : Option Offset) : Bool := offset = none ∨ offset = some (.number 0)

/-- `topics`. -/
def topics (manager : OffsetManager) : List String :=
  manager.memberAssignment.partitions.nameEntries.map Prod.fst

/-- Whether the partition is assigned. -/
def isAssigned (manager : OffsetManager) (topic : String) (partition : Int) : Bool :=
  partition ∈ (manager.memberAssignment.partitions.get? topic).getD []

/-- `resolvedOffsets[topic][partition]`. -/
def resolvedOffset (manager : OffsetManager) (topic : String) (partition : Int) : Option Offset :=
  ((manager.resolvedOffsets topic).get? partition).join

/-- Store a resolved offset. -/
def setResolved (manager : OffsetManager) (topic : String) (partition : Int)
    (offset : Option Offset) : OffsetManager :=
  { manager with
    resolvedOffsets := Function.update manager.resolvedOffsets topic
      ((manager.resolvedOffsets topic).set partition offset) }

/-- The number that an offset stands for as a position: zero where it is invalid. -/
def position (offset : Option Offset) : Int :=
  if isInvalidOffset offset then 0 else (offset.map Offset.value).getD 0

/-- `nextOffset` of a partition of an assigned topic. -/
def nextOffset (manager : OffsetManager) (topic : String) (partition : Int) :
    OffsetManager × Int :=
  let next :=
    if isFalsy (manager.resolvedOffset topic partition) then
      manager.setResolved topic partition (manager.committedOffsets (topic, partition))
    else manager
  (next, position (next.resolvedOffset topic partition))

/-- `resolveOffset` for an assigned topic. -/
def resolveOffset (manager : OffsetManager) (topic : String) (partition offset : Int) :
    OffsetManager :=
  manager.setResolved topic partition (some (.ofInt (offset + 1)))

/-- `clearOffsets` for an assigned topic. -/
def clearOffsets (manager : OffsetManager) (topic : String) (partition : Int) : OffsetManager :=
  { manager with
    resolvedOffsets := Function.update manager.resolvedOffsets topic
      ((manager.resolvedOffsets topic).delete partition)
    committedOffsets := Function.update manager.committedOffsets (topic, partition) none }

/-- What a call leads to before its first answer: it returns, or it sends offsets to commit. -/
inductive Outcome where
  | returned (manager : OffsetManager)
  | commits (topics : OffsetTopics)

/-- `setDefaultOffset` up to the answer; `clearOffsets` follows. -/
def setDefaultOffset (manager : OffsetManager) (topic : String) (partition : Int) :
    Except KafkaError OffsetTopics :=
  match manager.topicConfigurations topic with
  | none => .error undefinedOffset
  | some fromBeginning => .ok [(topic, [(partition, .number (defaultOffset fromBeginning))])]

/-- `seek` up to the answer; `clearOffsets` follows where offsets are committed. -/
def seek (manager : OffsetManager) (topic : String) (partition offset : Int) : Outcome :=
  if manager.isAssigned topic partition = false then .returned manager
  else if manager.autoCommit = false then
    .returned (manager.resolveOffset topic partition (offset - 1))
  else .commits [(topic, [(partition, .ofInt offset)])]

/-- `changedOffsets` of the partitions of a topic. -/
def changedOffsets (committed : Int → Option Offset) :
    List (Int × Option Offset) → Except KafkaError (List (Int × Offset))
  | [] => .ok []
  | (partition, offset) :: offsets =>
      if offset = committed partition then changedOffsets committed offsets
      else
        match offset with
        | none => .error undefinedOffset
        | some offset => do
            let changed ← changedOffsets committed offsets
            return if 0 ≤ offset.value then (partition, offset) :: changed else changed

/-- `uncommittedOffsets`. -/
def uncommittedOffsets (manager : OffsetManager) : Except KafkaError OffsetTopics := do
  let topics ← manager.topics.mapM fun topic => do
    let partitions ← changedOffsets (fun partition => manager.committedOffsets (topic, partition))
      (manager.resolvedOffsets topic).propertyEntries
    return (topic, partitions)
  return topics.filter fun entry => entry.2 ≠ []

/-- `commitOffsets` up to the answer, with the given offsets or else the uncommitted ones. -/
def commitOffsets (manager : OffsetManager) (offsets : Option OffsetTopics) :
    Except KafkaError Outcome := do
  let topics ← match offsets with
    | some topics => pure topics
    | none => manager.uncommittedOffsets
  return if topics = [] then .returned manager else .commits topics

/-- What `commitOffsets` does with the answer. -/
def markCommitted (manager : OffsetManager) (topics : OffsetTopics) : OffsetManager :=
  { manager with
    committedOffsets := assigned manager.committedOffsets
      ((ungrouped topics).map fun entry => (entry.1, some entry.2)) }

/-! ## Initial offsets -/

/-- `pendingPartitions`. -/
def pendingPartitions (manager : OffsetManager) : List (String × List Int) :=
  (manager.memberAssignment.partitions.nameEntries.map fun entry =>
    (entry.1, entry.2.filter fun partition =>
      isInvalidOffset (manager.committedOffsets (entry.1, partition)))).filter
        fun entry => entry.2 ≠ []

/-- `unresolvedPartitions`, with the configuration of their topics. -/
def unresolvedPartitions (manager : OffsetManager) (consumerOffsets : TopicPartitions) :
    List TopicRequest :=
  consumerOffsets.map fun entry =>
    { topic := entry.1
      partitions := (entry.2.filter fun pair => pair.2 < 0).map Prod.fst
      fromBeginning := (manager.topicConfigurations entry.1).getD false }

/-- `indexedTopicOffsets[topic][partition]`. A name that every object inherits finds a function,
which has no such property. -/
def listedOffset (indexedTopicOffsets : InsertionMap String (InsertionMap Int Int))
    (topic : String) (partition : Int) : Except KafkaError (Option Int) :=
  match indexedTopicOffsets.get? topic with
  | some partitions => .ok (partitions.get? partition)
  | none => if topic ∈ inheritedNames then .ok none else .error undefinedOffset

/-- The offset of one partition in `initializeConsumerOffsets`. -/
def initializePartition (indexedTopicOffsets : InsertionMap String (InsertionMap Int Int))
    (topic : String) (entry : Int × Int) : Except KafkaError (Int × Option Int) := do
  if entry.2 < 0 then return (entry.1, ← listedOffset indexedTopicOffsets topic entry.1)
  else return (entry.1, some entry.2)

/-- `initializeConsumerOffsets`. -/
def initializeConsumerOffsets (consumerOffsets topicOffsets : TopicPartitions) :
    Except KafkaError (List (String × List (Int × Option Int))) :=
  (indexed consumerOffsets).nameEntries.mapM fun entry => do
    let partitions ← entry.2.propertyEntries.mapM
      (initializePartition (indexed topicOffsets) entry.1)
    return (entry.1, partitions)

/-- The offsets that `resolveOffsets` stores, given the answer to OffsetFetch. -/
def initialOffsets (manager : OffsetManager) (view : ClusterView) (listOffsets : ListOffsets)
    (consumerOffsets : TopicPartitions) :
    Except KafkaError (List (String × List (Int × Option Int))) := do
  let unresolvedPartitions := manager.unresolvedPartitions consumerOffsets
  if unresolvedPartitions.any fun request => request.partitions ≠ [] then
    let topicOffsets ← fetchTopicsOffset view listOffsets unresolvedPartitions
    initializeConsumerOffsets consumerOffsets topicOffsets
  else
    return consumerOffsets.map fun entry =>
      (entry.1, entry.2.map fun pair => (pair.1, some pair.2))

/-- The last loop of `resolveOffsets`. -/
def storeOffsets (manager : OffsetManager) (offsets : List (String × List (Int × Option Int))) :
    OffsetManager :=
  { manager with
    committedOffsets := assigned manager.committedOffsets
      ((ungrouped offsets).map fun entry => (entry.1, entry.2.map Offset.ofInt)) }

/-- `offsetFetch` of the coordinator, once it is found and connected. -/
abbrev OffsetFetch := List (String × List Int) → Except KafkaError TopicPartitions

/-- `resolveOffsets`. -/
def resolveOffsets (manager : OffsetManager) (view : ClusterView) (listOffsets : ListOffsets)
    (offsetFetch : OffsetFetch) : Except KafkaError OffsetManager := do
  if manager.pendingPartitions = [] then return manager
  else
    let consumerOffsets ← offsetFetch manager.pendingPartitions
    let offsets ← manager.initialOffsets view listOffsets consumerOffsets
    return manager.storeOffsets offsets

/-! ## Lookups -/

/-- One topic's record changed under one partition. -/
theorem get?_update {resolved : String → InsertionMap Int (Option Offset)} {topic : String}
    {partition : Int} {record : InsertionMap Int (Option Offset)} {value : Option (Option Offset)}
    (h : ∀ id, record.get? id = if id = partition then value else (resolved topic).get? id)
    (other : String) (id : Int) :
    (Function.update resolved topic record other).get? id =
      if (other, id) = (topic, partition) then value else (resolved other).get? id := by
  rw [Function.update_apply]
  by_cases htopic : other = topic
  · rw [if_pos htopic, h, htopic]
    by_cases hid : id = partition
    · rw [if_pos hid, if_pos (by rw [hid])]
    · rw [if_neg hid, if_neg fun heq => hid (congrArg Prod.snd heq)]
  · rw [if_neg htopic, if_neg fun heq => htopic (congrArg Prod.fst heq)]

variable (manager : OffsetManager) (topic other : String) (partition id : Int)

/-- Resolving an offset changes the entry of its partition only. -/
theorem get?_setResolved (offset : Option Offset) :
    ((manager.setResolved topic partition offset).resolvedOffsets other).get? id =
      if (other, id) = (topic, partition) then some offset
      else (manager.resolvedOffsets other).get? id :=
  get?_update (fun _ => InsertionMap.get?_set _ _ _ _) other id

/-- The offset just resolved is the resolved offset. -/
theorem resolvedOffset_setResolved (offset : Option Offset) :
    (manager.setResolved topic partition offset).resolvedOffset topic partition = offset := by
  rw [resolvedOffset, get?_setResolved, if_pos rfl]
  rfl

/-- The position of a stored offset is zero when the offset is negative. -/
theorem position_ofInt (value : Int) :
    position (some (.ofInt value)) = if value < 0 then 0 else value := by
  show (if decide (value < 0) = true then 0 else value) = _
  simp only [decide_eq_true_eq]

/-- The next offset is the position of the resolved offset, or of the committed one where none is
resolved. -/
theorem nextOffset_snd :
    (manager.nextOffset topic partition).2 =
      position (if isFalsy (manager.resolvedOffset topic partition) = true then
          manager.committedOffsets (topic, partition)
        else manager.resolvedOffset topic partition) := by
  rw [nextOffset]
  dsimp only
  split
  · rw [resolvedOffset_setResolved]
  · rfl

/-- Clearing removes the resolved offset of its partition only. -/
theorem get?_clearOffsets :
    ((manager.clearOffsets topic partition).resolvedOffsets other).get? id =
      if (other, id) = (topic, partition) then none
      else (manager.resolvedOffsets other).get? id :=
  get?_update (fun _ => InsertionMap.get?_delete _ _ _) other id

/-- Clearing forgets the committed offset of its partition only. -/
theorem committedOffsets_clearOffsets :
    (manager.clearOffsets topic partition).committedOffsets (other, id) =
      if (other, id) = (topic, partition) then none else manager.committedOffsets (other, id) :=
  Function.update_apply _ _ _ _

end OffsetManager

end KafkaJs.Consumer
