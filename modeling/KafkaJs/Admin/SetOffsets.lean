import KafkaJs.Consumer.FetchManager
import KafkaJs.Data.InsertionMap
import KafkaJs.Execution.Run

/-!
# Setting the offsets of a group

`setOffsets` of `admin/index.js`. A temporary consumer commits the offsets as seeks: the fetcher of
a node pops those of its partitions one by one, and commits each of them before the next. The first
FETCH event, whichever fetcher it is of, stops the consumer, and the promise resolves when the
fetchers have ended. A fetch also emits FETCH when `recoverFromFetch` has recovered from its error,
although the seek that it has popped is not committed then, and the ones after it never are.
-/

namespace KafkaJs.Admin

open Consumer Data Execution

/-- An entry of `partitions`. -/
structure SeekEntry where
  partition : Int
  offset : Int
  deriving DecidableEq, Repr

/-- The nodes of the cluster, and the leaders of the partitions that exist. The node ids are the
keys of an object. -/
structure TopicLeaders where
  nodeIds : List Int
  leaders : InsertionMap Int Int
  distinct : nodeIds.Nodup
  known : ∀ partition node, leaders.get? partition = some node → node ∈ nodeIds

/-- Where the fetch of a node stands: it waits for the metadata, for the commit of a seek with the
partitions after it, or for `resolveOffsets` and the timeout; or it has emitted FETCH. -/
inductive SeekPhase where
  | refreshing
  | committing (partition offset : Int) (todo : List Int)
  | waiting
  | returned
  deriving DecidableEq, Repr

/-- Errors of a fetch. -/
inductive FetchError where
  | kafka (error : KafkaError)
  | staleTopicMetadataAssignment
  | offsetOutOfRange
  deriving DecidableEq, Repr

/-- The temporary consumer, which is assigned every partition of the topic. `fetches` has the first
fetch of every fetcher: there is no second one, since the consumer is stopped when the first one has
ended. `committed` is read by the specification only: the commits that have succeeded. -/
structure SetOffsets where
  topic : TopicLeaders
  manager : FetchManager
  seekOffset : InsertionMap Int Int
  fetches : List SeekPhase
  committed : List SeekEntry
  running : Bool
  resolved : Bool

/-- What may happen next. -/
inductive SetOffsetsEvent where
  | refreshed (fetcher : Nat)
  | committed (fetcher : Nat)
  | returns (fetcher : Nat)
  | fails (fetcher : Nat) (error : FetchError)
  | heartbeat (fetcher : Nat) (error : Option KafkaError)
  | nodes (nodeIds : List Int)
  | allEnded
  | caught
  | internalStopped
  | resolves
  deriving DecidableEq, Repr

/-- `filterPartitionsByNode` of all partitions. -/
def TopicLeaders.partitionsOf (topic : TopicLeaders) (nodeId : Int) : List Int :=
  topic.leaders.keys.filter fun partition => topic.leaders.get? partition = some nodeId

/-- Whether `recoverFromFetch` returns: the types `UNKNOWN_TOPIC_OR_PARTITION`,
`LEADER_NOT_AVAILABLE`, `NOT_LEADER_FOR_PARTITION`, `FENCED_LEADER_EPOCH` and
`UNKNOWN_LEADER_EPOCH`, and some names. -/
def recoverFromFetch : FetchError → Bool
  | .kafka error =>
      (error.code.any fun code => code ∈ [3, 5, 6, 74, 75]) ||
        error.name ∈ [.kafkaJSTopicMetadataNotLoaded, .kafkaJSConnectionClosedError,
          .kafkaJSBrokerNotFound]
  | .staleTopicMetadataAssignment | .offsetOutOfRange => true

/-- `KafkaJSNonRetriableError`. -/
def nonRetriableError (message : String) : KafkaError :=
  { name := .kafkaJSNonRetriableError, message := message, retriable := some false }

namespace SetOffsets

/-- `consumer.seek` of every entry. -/
def seekAll (partitions : List SeekEntry) : InsertionMap Int Int :=
  partitions.foldl (fun seekOffset entry => seekOffset.set entry.partition entry.offset) .empty

/-- The consumer when its fetchers have started. -/
def create (topic : TopicLeaders) (partitions : List SeekEntry) : SetOffsets :=
  { topic
    manager := { FetchManager.create topic.nodeIds with starts := 1 }.createFetchers
    seekOffset := seekAll partitions
    fetches := topic.nodeIds.map fun _ => .refreshing
    committed := []
    running := true
    resolved := false }

/-- The loop of `seekOffsets`: the next seek is popped, or there is none. -/
def seekOffsets (seekOffset : InsertionMap Int Int) : List Int → InsertionMap Int Int × SeekPhase
  | [] => (seekOffset, .waiting)
  | partition :: todo =>
      match seekOffset.get? partition with
      | none => seekOffsets seekOffset todo
      | some offset => (seekOffset.delete partition, .committing partition offset todo)

/-- The loop of `seekOffsets`, in a fetch. -/
def seekFrom (state : SetOffsets) (fetcher : Nat) (todo : List Int) : SetOffsets :=
  { state with
    seekOffset := (seekOffsets state.seekOffset todo).1
    fetches := state.fetches.set fetcher (seekOffsets state.seekOffset todo).2 }

/-- The fetch emits FETCH, and the listener stops the consumer. -/
def emitFetch (state : SetOffsets) (fetcher : Nat) : Option SetOffsets :=
  let ended := { state with fetches := state.fetches.set fetcher .returned }
  if state.running then
    (state.manager.step .stop).map fun manager => { ended with manager, running := false }
  else some ended

/-- One event. -/
def step (state : SetOffsets) : SetOffsetsEvent → Option SetOffsets
  | .refreshed fetcher =>
      match state.fetches[fetcher]?, state.topic.nodeIds[fetcher]? with
      | some .refreshing, some nodeId =>
          some (state.seekFrom fetcher (state.topic.partitionsOf nodeId))
      | _, _ => none
  | .committed fetcher =>
      match state.fetches[fetcher]? with
      | some (.committing partition offset todo) =>
          some ({ state with
            committed := state.committed ++ [SeekEntry.mk partition offset] }.seekFrom fetcher todo)
      | _ => none
  | .returns fetcher =>
      -- all partitions are paused, so there is nothing to request
      if state.fetches[fetcher]? = some .waiting then state.emitFetch fetcher else none
  | .fails fetcher error =>
      match state.fetches[fetcher]? with
      | none | some .returned => none
      | some _ => if recoverFromFetch error then state.emitFetch fetcher else none
  | .heartbeat fetcher error =>
      if state.fetches[fetcher]? = some .returned then
        (state.manager.step (match error with
          | none => .fetched fetcher false
          | some error => .fails fetcher error)).map fun manager => { state with manager }
      else none
  | .nodes nodeIds =>
      (state.manager.step (.nodes nodeIds)).map fun manager => { state with manager }
  | .allEnded => (state.manager.step .allEnded).map fun manager => { state with manager }
  | .caught => (state.manager.step .caught).map fun manager => { state with manager }
  | .internalStopped =>
      (state.manager.step .internalStopped).map fun manager => { state with manager }
  | .resolves =>
      -- `stop` has waited for its fetchers and for the end of `start`
      if state.running = false ∧ state.manager.startPhase = .idle ∧
          state.manager.stops.all fun call => state.manager.haveEnded call.awaited then
        some { state with resolved := true }
      else none

end SetOffsets

/-- `admin.setOffsets`, up to the start of the fetchers. `groupState` is what `describeGroup` says
of the group. -/
def setOffsets (topicLeaders : TopicLeaders) (groupId topic : String) (partitions : List SeekEntry)
    (groupState : String) : Except KafkaError SetOffsets :=
  if groupId = "" then .error (nonRetriableError ("Invalid groupId " ++ groupId))
  else if topic = "" then .error (nonRetriableError ("Invalid topic " ++ topic))
  else if partitions = [] then .error (nonRetriableError "Invalid partitions")
  else if groupState ∉ ["Empty", "Dead"] then
    .error (nonRetriableError
      ("The consumer group must have no running instances, current state: " ++ groupState))
  -- `consumer.seek` takes the offsets for the earliest and the latest message
  else if partitions.any fun entry => entry.offset < 0 ∧ entry.offset ∉ [-1, -2] then
    .error (nonRetriableError "Offset must not be a negative number")
  else .ok (SetOffsets.create topicLeaders partitions)

namespace SetOffsets

/-- Every listed partition that exists has been committed with its offset. -/
def Committed (partitions : List SeekEntry) (state : SetOffsets) : Prop :=
  ∀ entry ∈ partitions, entry.partition ∈ state.topic.leaders.keys → entry ∈ state.committed

/-- A fetch does not fail before all seeks of its node are committed. -/
def keepsSeeks (state : SetOffsets) : SetOffsetsEvent → Bool
  | .fails fetcher _ =>
      match state.fetches[fetcher]?, state.topic.nodeIds[fetcher]? with
      | some .refreshing, some nodeId =>
          (state.topic.partitionsOf nodeId).all fun partition =>
            (state.seekOffset.get? partition).isNone
      | some (.committing _ _ _), _ => false
      | _, _ => true
  | _ => true

end SetOffsets

end KafkaJs.Admin
