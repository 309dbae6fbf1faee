import KafkaJs.Execution.Run
import KafkaJs.Producer.Partitioner

/-!
# One call of `sendMessages`

`createProducerRequests` plans the produce requests of one attempt; `step` runs the call as an
event machine. The response map survives from one attempt to the next. `Promise.all` rejects as
soon as one request fails, so requests of a failed attempt stay in flight while the retrier
starts the next attempt: a request carries the number of its attempt, and only a request of the
current attempt decides how the attempt ends. A request is in flight from the moment its task
starts, waiting for the broker's lock and for the transaction coordinator included. The history
records every produce request and every answer in the order in which they happened; it is read
by the specifications and not by the code.
-/

namespace KafkaJs.Producer

open Data Cluster

/-- The messages of one partition in a produce request. -/
structure PartitionData (μ : Type) where
  partition : Int
  messages : List μ
  deriving DecidableEq, Repr

/-- The partitions of one topic in a produce request. -/
structure TopicData (μ : Type) where
  topic : String
  partitions : List (PartitionData μ)
  deriving DecidableEq, Repr

/-- What the broker answers for one partition. -/
structure PartitionAnswer where
  errorCode : Int
  offset : Int
  deriving DecidableEq, Repr

/-- One entry of a serialized produce response. -/
structure ResponseEntry where
  topicName : String
  partition : Int
  errorCode : Int
  offset : Int
  deriving DecidableEq, Repr

/-- `responsePerBroker`: the brokers of this call in insertion order, with `none` for `null`. -/
abbrev ResponsePerBroker := InsertionMap Broker (Option (List ResponseEntry))

/-- What an attempt computes for a topic. -/
structure TopicPlan (μ : Type) where
  partitionsPerLeader : InsertionMap Int (List Int)
  messagesPerPartition : InsertionMap Int (List μ)

/-- The variables of `createProducerRequests`. -/
structure Planning (μ σ : Type) where
  topicMetadata : InsertionMap String (TopicPlan μ)
  responsePerBroker : ResponsePerBroker
  partitioner : σ

/-- A produce request of one attempt. -/
structure Request (μ : Type) where
  attempt : Nat
  broker : Broker
  topicData : List (TopicData μ)
  deriving DecidableEq, Repr

/-- The parameters of a call and of the producer it belongs to. -/
structure SendConfig (μ σ : Type) where
  partitioner : Partitioner μ σ
  topicMessages : List (String × List μ)
  acks : Int
  retries : Nat

variable {μ σ : Type}

/-! ## Planning one attempt -/

/-- Look up the broker of every leader and reserve its place in the response map. -/
def reserveBrokers (view : ClusterView) :
    List Int → ResponsePerBroker → ResponsePerBroker × Option KafkaError
  | [], responses => (responses, none)
  | nodeId :: nodeIds, responses =>
      match findBroker view nodeId with
      | .error error => (responses, some error)
      | .ok broker =>
          reserveBrokers view nodeIds
            (if responses.has broker then responses else responses.set broker none)

/-- The error for a topic without metadata. -/
def metadataNotLoaded : KafkaError :=
  { name := .kafkaJSMetadataNotLoaded, message := "Producing to topic without metadata" }

/-- The body of the loop over the topics. The updates made before an error stay. -/
def planTopic (config : SendConfig μ σ) (view : ClusterView) (planning : Planning μ σ)
    (topic : String) (messages : List μ) : Planning μ σ × Option KafkaError :=
  let partitionMetadata := findTopicPartitionMetadata view topic
  if partitionMetadata = [] then (planning, some metadataNotLoaded)
  else
    let (messagesPerPartition, partitioner) :=
      groupMessagesPerPartition config.partitioner topic partitionMetadata planning.partitioner
        messages
    let planning := { planning with partitioner := partitioner }
    match findLeaderForPartitions partitionMetadata (propertyKeys messagesPerPartition.keys) with
    | .error error => (planning, some error)
    | .ok partitionsPerLeader =>
        let (responses, failed) :=
          reserveBrokers view (propertyKeys partitionsPerLeader.keys) planning.responsePerBroker
        ({ planning with
            topicMetadata :=
              planning.topicMetadata.set topic ⟨partitionsPerLeader, messagesPerPartition⟩
            responsePerBroker := responses }, failed)

/-- The loop over the topics, stopped by the first error. -/
def planTopics (config : SendConfig μ σ) (view : ClusterView) :
    Planning μ σ → List (String × List μ) → Planning μ σ × Option KafkaError
  | planning, [] => (planning, none)
  | planning, (topic, messages) :: rest =>
      match planTopic config view planning topic messages with
      | (planning, some error) => (planning, some error)
      | (planning, none) => planTopics config view planning rest

/-- `createTopicData` for one topic: the given partitions with their messages. -/
def createTopicData (topic : String) (plan : TopicPlan μ) (partitions : List Int) :
    TopicData μ :=
  { topic := topic
    partitions := partitions.map fun partition =>
      { partition := partition
        messages := (plan.messagesPerPartition.get? partition).getD [] } }

/-- The data for the topics of which the broker leads some partition. -/
def topicDataForBroker (topicMetadata : InsertionMap String (TopicPlan μ)) (broker : Broker) :
    List (TopicData μ) :=
  topicMetadata.entries.filterMap fun entry =>
    (entry.2.partitionsPerLeader.get? broker.nodeId).map (createTopicData entry.1 entry.2)

/-- The brokers of the response map that have not answered. -/
def brokersWithoutResponse (responses : ResponsePerBroker) : List Broker :=
  responses.keys.filter fun broker => (responses.get? broker).join.isNone

/-- `createProducerRequests`: the requests of one attempt, or the error that ended planning. -/
def createProducerRequests (config : SendConfig μ σ) (view : ClusterView) (attempt : Nat)
    (responses : ResponsePerBroker) (partitioner : σ) :
    Planning μ σ × Except KafkaError (List (Request μ)) :=
  match planTopics config view ⟨InsertionMap.empty, responses, partitioner⟩
      config.topicMessages with
  | (planning, some error) => (planning, .error error)
  | (planning, none) =>
      (planning, .ok ((brokersWithoutResponse planning.responsePerBroker).map fun broker =>
        { attempt := attempt
          broker := broker
          topicData := topicDataForBroker planning.topicMetadata broker }))

/-! ## Answers -/

/-- `decode` and `responseSerializer`: the broker answers for every partition of the request. -/
def responseEntries (topicData : List (TopicData μ))
    (answer : String → Int → PartitionAnswer) : List ResponseEntry :=
  topicData.flatMap fun data =>
    data.partitions.map fun entry =>
      { topicName := data.topic
        partition := entry.partition
        errorCode := (answer data.topic entry.partition).errorCode
        offset := (answer data.topic entry.partition).offset }

/-- `parse` of the produce response: any failed partition fails the whole response. -/
def parseResponse (entries : List ResponseEntry) : Except KafkaError (List ResponseEntry) :=
  match entries.find? fun entry => failure entry.errorCode with
  | some entry => .error (createErrorFromCode entry.errorCode)
  | none => .ok entries

/-- What the handler of a failed attempt finds: whether the cluster is still connected, and the
error with which reconnecting or refreshing the metadata fails, if it does. -/
structure Recovery where
  connected : Bool
  error : Option KafkaError
  deriving DecidableEq, Repr

/-- How an attempt ends once it failed. -/
inductive AttemptEnd where
  | thrown (error : KafkaError)
  | bailed (error : KafkaError)
  deriving DecidableEq, Repr

/-- The `catch` block around an attempt. -/
def catchAttempt (recovery : Recovery) (error : KafkaError) : AttemptEnd :=
  if recovery.connected = false then .thrown (recovery.error.getD error)
  else if staleMetadata error ∨ error.name = .kafkaJSMetadataNotLoaded ∨
      error.name = .kafkaJSConnectionError ∨ error.name = .kafkaJSConnectionClosedError ∨
      (error.name = .kafkaJSProtocolError ∧ error.retriable = some true) then
    .thrown (recovery.error.getD error)
  else if error.retriable = some true then .thrown error
  else .bailed error

/-! ## The call as an event machine -/

/-- Where the call stands: waiting for the retrier to start an attempt, waiting for the requests
of an attempt, or settled. -/
inductive Phase where
  | waiting (retryCount : Nat)
  | sending (retryCount : Nat)
  | resolved (result : List (Option ResponseEntry))
  | rejected (error : KafkaError)
  deriving DecidableEq, Repr

/-- What the specifications observe. -/
inductive Happening (μ : Type) where
  | produced (request : Request μ)
  | answered (request : Request μ) (entries : List ResponseEntry)
  deriving DecidableEq, Repr

/-- The state of one call. -/
structure SendState (μ σ : Type) where
  responsePerBroker : ResponsePerBroker
  partitioner : σ
  phase : Phase
  inFlight : List (Request μ)
  history : List (Happening μ)

/-- What may happen next: the retrier starts an attempt, which may fail before the metadata is
looked at; a request in flight is answered; it fails without an answer; or it fails before it is
sent because the broker's lock cannot be acquired. -/
inductive SendEvent where
  | attemptFails (error : KafkaError) (recovery : Option Recovery)
  | attempt (view : ClusterView) (recovery : Recovery)
  | answer (index : Nat) (answer : String → Int → PartitionAnswer) (recovery : Recovery)
  | fail (index : Nat) (error : KafkaError) (recovery : Recovery)
  | lockFails (index : Nat) (error : KafkaError) (recovery : Recovery)

/-- The state before the first attempt. -/
def SendState.initial (partitioner : σ) : SendState μ σ :=
  { responsePerBroker := InsertionMap.empty
    partitioner := partitioner
    phase := .waiting 0
    inFlight := []
    history := [] }

/-- The retrier after attempt `retryCount` ended with an error. -/
def retryOrReject (retries retryCount : Nat) : AttemptEnd → Phase
  | .thrown error =>
      if isErrorRetriable error ∧ retryCount < retries then .waiting (retryCount + 1)
      else .rejected error
  | .bailed error => .rejected error

/-- `Array.from(responsePerBroker.values()).flat()`: a `null` stays an element. -/
def flatResponses (responses : ResponsePerBroker) : List (Option ResponseEntry) :=
  responses.values.flatMap fun response =>
    match response with
    | none => [none]
    | some entries => entries.map some

/-- Resolve the call once every request of the current attempt succeeded. -/
def resolveIfDone (state : SendState μ σ) : SendState μ σ :=
  match state.phase with
  | .sending retryCount =>
      if state.inFlight.any (fun request => request.attempt = retryCount) then state
      else { state with phase := .resolved (flatResponses state.responsePerBroker) }
  | _ => state

/-- The attempt of a failed request fails if it is the current one. -/
def attemptOfRequestFails (config : SendConfig μ σ) (state : SendState μ σ)
    (request : Request μ) (error : KafkaError) (recovery : Recovery) : SendState μ σ :=
  { state with
    phase :=
      match state.phase with
      | .sending retryCount =>
          if request.attempt = retryCount then
            retryOrReject config.retries retryCount (catchAttempt recovery error)
          else state.phase
      | phase => phase }

/-- A request failed: its broker is removed from the response map. -/
def requestFails (config : SendConfig μ σ) (state : SendState μ σ) (request : Request μ)
    (error : KafkaError) (recovery : Recovery) : SendState μ σ :=
  attemptOfRequestFails config
    { state with responsePerBroker := state.responsePerBroker.delete request.broker }
    request error recovery

/-- One event of the call. -/
def step (config : SendConfig μ σ) (state : SendState μ σ) : SendEvent → Option (SendState μ σ)
  | .attemptFails error recovery =>
      match state.phase with
      | .waiting retryCount =>
          -- `addMultipleTargetTopics` is outside the `try`, the metadata refresh inside
          let ending := match recovery with
            | none => .thrown error
            | some recovery => catchAttempt recovery error
          some { state with phase := retryOrReject config.retries retryCount ending }
      | _ => none
  | .attempt view recovery =>
      match state.phase with
      | .waiting retryCount =>
          match createProducerRequests config view retryCount state.responsePerBroker
              state.partitioner with
          | (planning, .error error) =>
              some { state with
                responsePerBroker := planning.responsePerBroker
                partitioner := planning.partitioner
                phase := retryOrReject config.retries retryCount (catchAttempt recovery error) }
          | (planning, .ok requests) =>
              some (resolveIfDone
                { responsePerBroker := planning.responsePerBroker
                  partitioner := planning.partitioner
                  phase := .sending retryCount
                  inFlight := state.inFlight ++ requests
                  history := state.history ++ requests.map .produced })
      | _ => none
  | .answer index answer recovery =>
      match state.inFlight[index]? with
      | none => none
      | some request =>
          let entries := responseEntries request.topicData answer
          let state := { state with
            inFlight := state.inFlight.eraseIdx index
            history := state.history ++ [.answered request entries] }
          -- without acknowledgements there is no response to parse
          match if config.acks = 0 then .ok [] else parseResponse entries with
          | .error error => some (requestFails config state request error recovery)
          | .ok response =>
              some (resolveIfDone { state with
                responsePerBroker :=
                  state.responsePerBroker.set request.broker (some response) })
  | .fail index error recovery =>
      match state.inFlight[index]? with
      | none => none
      | some request =>
          some (requestFails config
            { state with inFlight := state.inFlight.eraseIdx index } request error recovery)
  | .lockFails index error recovery =>
      match state.inFlight[index]? with
      | none => none
      | some request =>
          -- the lock is acquired outside the `try`, so the broker keeps its place
          some (attemptOfRequestFails config
            { state with inFlight := state.inFlight.eraseIdx index } request error recovery)

/-! ## The topics of a call -/

/-- The merging of repeated topics in `sendBatch`, before `sendMessages` is called. -/
def mergeTopicMessages (topicMessages : List (String × List μ)) : List (String × List μ) :=
  (topicMessages.foldl
    (fun merged (topic, messages) =>
      merged.set topic ((merged.get? topic).getD [] ++ messages))
    (InsertionMap.empty : InsertionMap String (List μ))).entries

/-- All messages given for a topic, in order. -/
def messagesOf (topicMessages : List (String × List μ)) (topic : String) : List μ :=
  (topicMessages.filter fun entry => entry.1 = topic).flatMap Prod.snd

end KafkaJs.Producer
