import KafkaJs.Consumer.AtLeastOnce
import KafkaJs.Consumer.StoredLog

/-!
# A partition and its consumer, with responses as bytes

The broker appends batches to the log of a partition and answers fetches with pieces of it, inside
responses that carry other partitions too. The consumer decodes the bytes of a response, parses it
and makes batches of the messages; all else it does as in `Runner`, which takes the batches from the
log. `run_refines` says that every run over bytes is one of `Runner` over the log as it is in the
end: neither the cuts nor the growth of the log show.

What the consumer group does to recover from the failure of a fetch is left out, as it is there.
-/

namespace KafkaJs.Consumer

open KafkaJs.Data KafkaJs.Execution KafkaJs.Protocol

variable {codecs : Codecs}

/-! ## The system -/

/-- The version of fetch that broker and consumer speak, how many arguments a call takes, the
partition, and the configuration. -/
structure Settings where
  version : Fetch.Version
  maxArguments : Nat
  topic : Text
  partition : Int
  autoCommit : Bool

/-- The log on the broker and the consumer. All messages that were decoded for the partition are
`received`, which the specifications read and the code does not. -/
structure System (codecs : Codecs) where
  log : StoredLog codecs
  consumer : State
  received : List PartitionMessage

/-- What a response holds besides the records of the partition. -/
structure Surroundings (codecs : Codecs) where
  throttleTime : Int
  errorCode : Int
  sessionId : Int
  topicsBefore : List (Fetch.WireTopic codecs)
  partitionsBefore : List (Fetch.WirePartition codecs)
  header : Fetch.PartitionHeader
  /-- Where the records of the partition are cut. -/
  size : Nat
  partitionsAfter : List (Fetch.WirePartition codecs)
  topicsAfter : List (Fetch.WireTopic codecs)

/-- What may happen next: the log grows, the bytes of a response to a fetch arrive, or anything that
does not have to do with responses. -/
inductive SystemEvent (codecs : Codecs) where
  | append (batch : StoredBatch codecs)
  | answer (index fuel : Nat) (surroundings : Surroundings codecs)
  | consumer (event : Event)

/-- Whether an event of `Runner` is the response to a fetch. -/
def Event.isResponse : Event → Bool
  | .response _ _ _ _ => true
  | _ => false

/-- The response with a piece of the log in it. -/
def Surroundings.response (settings : Settings) (surroundings : Surroundings codecs)
    (piece : Fetch.WirePartition codecs) : Fetch.WireResponse codecs :=
  { throttleTime := surroundings.throttleTime
    errorCode := surroundings.errorCode
    sessionId := surroundings.sessionId
    responses := surroundings.topicsBefore ++
      { topicName := some settings.topic
        partitions := surroundings.partitionsBefore ++ piece :: surroundings.partitionsAfter } ::
      surroundings.topicsAfter }

/-- The partitions of a response of which `fetch` makes batches for the partition. -/
def partitionsOf (settings : Settings) (data : Fetch.Response) : List Fetch.PartitionData :=
  data.responses.flatMap fun response =>
    if response.topicName = some settings.topic then
      response.partitions.filter fun data => data.partition = settings.partition
    else []

/-- What the consumer reads from the data of a response, `none` while it decodes it. The fetch fails
if the data is malformed or any partition has an error. -/
def fetchedPartitions (settings : Settings) (codecs : Codecs) (fuel : Nat) (rawData : Bytes) :
    Option (List Fetch.PartitionData) :=
  (Fetch.decode settings.version settings.maxArguments codecs fuel rawData).map fun decoded =>
    match decoded with
    | .error _ => []
    | .ok data =>
        match Fetch.parse data with
        | .error _ => []
        | .ok data => partitionsOf settings data

/-- A batch is made and waits for the worker, unless the partition is paused. -/
def State.takeBatch (offset : Int) (state : State) (data : Fetch.PartitionData) : State :=
  match Batch.create offset data.highWatermark (data.messages.map Message.of)
      (abortedTransactionsOf data.toPartitionHeader) with
  | .error _ => state
  | .ok batch => if state.paused then state else { state with queue := state.queue ++ [batch] }

/-- A fetch is over. -/
def System.receive (system : System codecs) (index : Nat) (offset : Int)
    (partitions : List Fetch.PartitionData) : System codecs :=
  { system with
    consumer := partitions.foldl (State.takeBatch offset)
      { system.consumer with fetches := system.consumer.fetches.eraseIdx index }
    received := system.received ++ partitions.flatMap Fetch.PartitionData.messages }

/-- One event. -/
def System.step (settings : Settings) (system : System codecs) :
    SystemEvent codecs → Option (System codecs)
  | .append batch =>
      if h : ∀ stored ∈ system.log.batches, stored.lastOffset < batch.firstOffset then
        some { system with log := system.log.append batch h }
      else none
  | .answer index fuel surroundings =>
      match system.consumer.fetches[index]? with
      | none => none
      | some offset =>
          let response := surroundings.response settings
            (system.log.piece offset surroundings.header surroundings.size)
          (fetchedPartitions settings codecs fuel (response.bytes settings.version)).map
            (system.receive index offset)
  | .consumer event =>
      if event.isResponse then none
      else
        (Consumer.step ⟨system.log.toLog, settings.autoCommit⟩ system.consumer event).map
          fun consumer => { system with consumer }

/-- A new partition, and a consumer that starts at an offset. -/
def System.initial (committedOffset : Int) : System codecs :=
  { log := .empty, consumer := State.initial committedOffset, received := [] }

/-- A response is one of the version, and nothing else in it is about the partition. -/
structure Surroundings.Sound (settings : Settings) (surroundings : Surroundings codecs) :
    Prop where
  topic : settings.topic.toWellFormed = settings.topic
  topics : ∀ topic ∈ surroundings.topicsBefore ++ surroundings.topicsAfter,
    topic.topicName.map Text.toWellFormed ≠ some settings.topic
  partition : surroundings.header.partition = settings.partition
  partitions : ∀ other ∈ surroundings.partitionsBefore ++ surroundings.partitionsAfter,
    other.header.partition ≠ settings.partition

/-- Responses are sound, and have room for what they carry. -/
def System.Sound (settings : Settings) (system : System codecs) : SystemEvent codecs → Prop
  | .answer index fuel surroundings =>
      surroundings.Sound settings ∧ ∀ offset ∈ system.consumer.fetches[index]?,
        (surroundings.response settings
          (system.log.piece offset surroundings.header surroundings.size)).Fits
            settings.version fuel
  | .append _ | .consumer _ => True

/-! ## What a response brings -/

section Responses

variable {settings : Settings} {surroundings : Surroundings codecs}

/-- Of a topic the consumer keeps what is about the partition. -/
theorem filter_partitions_eq_nil {others : List (Fetch.WirePartition codecs)}
    (h : ∀ other ∈ others, other.header.partition ≠ settings.partition) :
    (others.map (Fetch.WirePartition.received settings.version)).filter
      (fun data => data.partition = settings.partition) = [] := by
  rw [List.filter_eq_nil_iff, List.forall_mem_map]
  intro other hother
  rw [decide_eq_true_eq]
  exact h other hother

/-- Of a sound response the consumer reads the piece of the log. -/
theorem partitionsOf_received (h : surroundings.Sound settings)
    {piece : Fetch.WirePartition codecs} (hpiece : piece.header = surroundings.header) :
    partitionsOf settings ((surroundings.response settings piece).received settings.version) =
      [piece.received settings.version] := by
  have hothers : ∀ topics : List (Fetch.WireTopic codecs),
      (∀ topic ∈ topics, topic.topicName.map Text.toWellFormed ≠ some settings.topic) →
      ((topics.map (Fetch.WireTopic.received settings.version)).flatMap fun response =>
        if response.topicName = some settings.topic then
          response.partitions.filter fun data => data.partition = settings.partition
        else []) = [] := by
    intro topics htopics
    rw [List.flatMap_eq_nil_iff, List.forall_mem_map]
    exact fun topic htopic => if_neg (htopics topic htopic)
  obtain ⟨hbefore, hafter⟩ := List.forall_mem_append.mp h.topics
  obtain ⟨hfirst, hlast⟩ := List.forall_mem_append.mp h.partitions
  have hself : (piece.received settings.version).partition = settings.partition :=
    (congrArg Fetch.PartitionHeader.partition hpiece).trans h.partition
  show ((surroundings.response settings piece).responses.map
    (Fetch.WireTopic.received settings.version)).flatMap _ = _
  rw [Surroundings.response, List.map_append, List.map_cons, List.flatMap_append,
    List.flatMap_cons, hothers _ hbefore, hothers _ hafter, List.nil_append, List.append_nil]
  refine (if_pos (congrArg some h.topic)).trans ?_
  show ((surroundings.partitionsBefore ++ piece :: surroundings.partitionsAfter).map
    (Fetch.WirePartition.received settings.version)).filter _ = _
  rw [List.map_append, List.map_cons, List.filter_append, filter_partitions_eq_nil hfirst,
    List.nil_append, List.filter_cons, if_pos (decide_eq_true hself),
    filter_partitions_eq_nil hlast]

/-- The bytes of a sound response bring the piece of the log or nothing. -/
theorem fetchedPartitions_cases (h : surroundings.Sound settings)
    {piece : Fetch.WirePartition codecs} (hpiece : piece.header = surroundings.header)
    {fuel : Nat} (hfits : (surroundings.response settings piece).Fits settings.version fuel) :
    fetchedPartitions settings codecs fuel
        ((surroundings.response settings piece).bytes settings.version) = some [] ∨
      fetchedPartitions settings codecs fuel
          ((surroundings.response settings piece).bytes settings.version) =
        some [piece.received settings.version] := by
  rw [fetchedPartitions, hfits.decode_eq settings.maxArguments, Option.map_some]
  cases (surroundings.response settings piece).fault settings.maxArguments with
  | some error =>
      left
      rfl
  | none =>
      rw [orFault_none]
      dsimp only
      split
      · left
        rfl
      · next result hparse =>
          right
          obtain ⟨rfl, -⟩ := Fetch.parse_eq_ok_iff.mp hparse
          rw [partitionsOf_received h hpiece]

end Responses

/-! ## The consumer over the log -/

section Refinement

variable {settings : Settings} {system next : System codecs}

/-- The log is not looked at but for responses. -/
theorem step_log (first second : PartitionLog) (autoCommit : Bool) (state : State) {event : Event}
    (h : event.isResponse = false) :
    Consumer.step ⟨first, autoCommit⟩ state event =
      Consumer.step ⟨second, autoCommit⟩ state event := by
  cases event with
  | response => cases h
  | _ => rfl

/-- A batch behind the end of the log is appended to it. -/
theorem step_append {batch : StoredBatch codecs}
    (hlater : ∀ stored ∈ system.log.batches, stored.lastOffset < batch.firstOffset) :
    system.step settings (.append batch) =
      some { system with log := system.log.append batch hlater } := by
  simp only [System.step]
  exact dif_pos hlater

/-- What an event of the system does, by its kind. -/
theorem step_cases {event : SystemEvent codecs} (h : system.step settings event = some next) :
    (∃ batch, event = .append batch ∧
      ∃ hlater : ∀ stored ∈ system.log.batches, stored.lastOffset < batch.firstOffset,
        next = { system with log := system.log.append batch hlater }) ∨
    (∃ index fuel surroundings offset partitions, event = .answer index fuel surroundings ∧
      system.consumer.fetches[index]? = some offset ∧
      fetchedPartitions settings codecs fuel
        ((surroundings.response settings
          (system.log.piece offset surroundings.header surroundings.size)).bytes
            settings.version) = some partitions ∧
      next = system.receive index offset partitions) ∨
    ∃ plain consumer, event = .consumer plain ∧ plain.isResponse = false ∧
      Consumer.step ⟨system.log.toLog, settings.autoCommit⟩ system.consumer plain =
        some consumer ∧
      next = { system with consumer } := by
  cases event with
  | append batch =>
      simp only [System.step] at h
      split at h
      · next hlater =>
          cases h
          exact .inl ⟨batch, rfl, hlater, rfl⟩
      · cases h
  | answer index fuel surroundings =>
      simp only [System.step] at h
      split at h
      · cases h
      · next offset hoffset =>
          obtain ⟨partitions, hpartitions, rfl⟩ := Option.map_eq_some_iff.mp h
          exact .inr (.inl ⟨index, fuel, surroundings, offset, partitions, rfl, hoffset,
            hpartitions, rfl⟩)
  | consumer plain =>
      simp only [System.step] at h
      split at h
      · cases h
      · next hplain =>
          obtain ⟨consumer, hconsumer, rfl⟩ := Option.map_eq_some_iff.mp h
          exact .inr (.inr ⟨plain, consumer, rfl, Bool.eq_false_of_not_eq_true hplain, hconsumer,
            rfl⟩)

/-- The log only grows. -/
theorem growsTo_step {event : SystemEvent codecs} (h : system.step settings event = some next) :
    system.log.GrowsTo next.log := by
  rcases step_cases h with ⟨batch, -, hlater, rfl⟩ | ⟨_, _, _, _, _, -, -, -, rfl⟩ |
    ⟨_, _, -, -, -, rfl⟩
  · exact StoredLog.growsTo_append hlater
  · exact .refl _
  · exact .refl _

/-- To take the batch of a piece is to take the response to a fetch of the log. -/
theorem step_response {log final : StoredLog codecs} (hgrows : log.GrowsTo final)
    {state : State} {index : Nat} {offset : Int} (hoffset : state.fetches[index]? = some offset)
    (header : Fetch.PartitionHeader) (size : Nat) (autoCommit : Bool) :
    ∃ event, Consumer.step ⟨final.toLog, autoCommit⟩ state event =
      some (({ state with fetches := state.fetches.eraseIdx index } : State).takeBatch offset
        ((log.piece offset header size).received settings.version)) := by
  obtain ⟨count, hfetch⟩ := StoredLog.fetch_of_piece hgrows offset header size
  refine ⟨.response index count (abortedTransactionsOf (header.received settings.version))
    header.highWatermark, ?_⟩
  simp only [Consumer.step, hoffset, State.takeBatch]
  rw [← hfetch]
  show (match Batch.create offset header.highWatermark
      ((EncodedBatch.messagesOf (log.piece offset header size).whole).map Message.of)
      (abortedTransactionsOf (header.received settings.version)) with
    | .error _ => _ | .ok _ => _) = some (match Batch.create offset header.highWatermark
      ((EncodedBatch.messagesOf (log.piece offset header size).whole).map Message.of)
      (abortedTransactionsOf (header.received settings.version)) with
    | .error _ => _ | .ok _ => _)
  cases Batch.create offset header.highWatermark
      ((EncodedBatch.messagesOf (log.piece offset header size).whole).map Message.of)
      (abortedTransactionsOf (header.received settings.version)) with
  | error => rfl
  | ok batch =>
      dsimp only
      split <;> rfl

/-- A step of the system is none of the consumer, or one that `Runner` has over any log to which
the log of the broker grows. -/
theorem step_refines {event : SystemEvent codecs} (h : system.step settings event = some next)
    (hsound : system.Sound settings event) {log : StoredLog codecs}
    (hgrows : next.log.GrowsTo log) :
    next.consumer = system.consumer ∨ ∃ plain,
      Consumer.step ⟨log.toLog, settings.autoCommit⟩ system.consumer plain =
        some next.consumer := by
  rcases step_cases h with ⟨_, -, _, rfl⟩ |
    ⟨index, fuel, surroundings, offset, partitions, rfl, hoffset, hpartitions, rfl⟩ |
    ⟨plain, consumer, -, hplain, hconsumer, rfl⟩
  · exact .inl rfl
  · obtain ⟨hsurroundings, hfits⟩ := hsound
    rcases fetchedPartitions_cases hsurroundings rfl (hfits offset hoffset) with hnone | hpiece
    · cases hpartitions.symm.trans hnone
      obtain ⟨hindex, -⟩ := List.getElem?_eq_some_iff.mp hoffset
      exact .inr ⟨.fetchFails index, if_pos hindex⟩
    · cases hpartitions.symm.trans hpiece
      exact .inr (step_response hgrows hoffset _ _ _)
  · exact .inr ⟨plain, (step_log _ _ _ _ hplain).trans hconsumer⟩

/-- Over a run the log only grows. -/
theorem growsTo_run {events : List (SystemEvent codecs)}
    (h : run (System.step settings) system events = some next) : system.log.GrowsTo next.log :=
  @invariant_of_run _ _ (System.step settings) (fun state => system.log.GrowsTo state.log)
    (fun _ _ _ hgrown hstep => hgrown.trans (growsTo_step hstep)) _ _ _ (.refl _) h

/-- Every run over bytes is a run of `Runner` over the log as it is in the end. -/
theorem run_refines {events : List (SystemEvent codecs)} {log : StoredLog codecs}
    (hrun : run (System.step settings) system events = some next)
    (hsound : Meets (System.step settings) (System.Sound settings) system events)
    (hgrows : next.log.GrowsTo log) :
    ∃ plain, run (Consumer.step ⟨log.toLog, settings.autoCommit⟩) system.consumer plain =
      some next.consumer := by
  induction events generalizing system with
  | nil =>
      cases hrun
      exact ⟨[], rfl⟩
  | cons event events ih =>
      obtain ⟨middle, hstep, hrest⟩ := run_cons_eq_some.mp hrun
      obtain ⟨hevent, hsoundRest⟩ := (meets_cons hstep).mp hsound
      obtain ⟨plain, hplain⟩ := ih hrest hsoundRest
      rcases step_refines hstep hevent ((growsTo_run hrest).trans hgrows) with hsame | ⟨first, hfirst⟩
      · exact ⟨plain, hsame ▸ hplain⟩
      · exact ⟨first :: plain, run_cons_eq_some.mpr ⟨_, hfirst, hplain⟩⟩

end Refinement

end KafkaJs.Consumer
