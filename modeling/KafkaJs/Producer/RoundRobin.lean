import KafkaJs.Producer.FixedMetadata

/-!
# Retries under the built-in partitioner

Every attempt runs the partitioner again, and its round-robin counter has moved on since the
attempt before. A retry therefore assigns the messages anew, and sends those that now fall to a
broker without an answer. It completes the call exactly when the messages that were acknowledged
are those that now fall to the brokers which answered: `Aligned`.
-/

namespace KafkaJs.Producer

open Data Cluster Execution

/-! ## The messages of one topic in the requests of an attempt -/

section Topic

variable {μ σ : Type} {config : SendConfig μ σ} {view : ClusterView} {attempt : Nat}
  {responses : ResponsePerBroker} {planning : Planning μ σ} {requests : List (Request μ)}
  {topic : String} {messages : List μ} {state : σ} {plan : TopicPlan μ}

/-- The plan of the only topic of a call starts from the partitioner's current state. -/
theorem createProducerRequests_single {partitioner : σ}
    (hsingle : config.topicMessages = [(topic, messages)])
    (h : createProducerRequests config view attempt responses partitioner =
      (planning, .ok requests)) :
    ∃ plan, Planned config view topic messages partitioner plan ∧
      planning.topicMetadata.get? topic = some plan := by
  unfold createProducerRequests at h
  rw [hsingle] at h
  simp only [planTopics] at h
  cases hplan : planTopic config view ⟨InsertionMap.empty, responses, partitioner⟩ topic
      messages with
  | mk next failed =>
      cases failed with
      | some error => simp [hplan] at h
      | none =>
          simp only [hplan, Prod.mk.injEq] at h
          obtain ⟨rfl, -⟩ := h
          obtain ⟨plan, hplanned, hset, -, -⟩ := planTopic_ok hplan
          exact ⟨plan, hplanned, by rw [hset, InsertionMap.get?_set_self]⟩

/-- The partitions of a topic that are led by brokers without an answer. -/
def unansweredPartitions (view : ClusterView) (topic : String) (plan : TopicPlan μ)
    (brokers : List Broker) : List Int :=
  brokers.flatMap fun broker =>
    (propertyKeys plan.messagesPerPartition.keys).filter fun partition =>
      leaderOf (findTopicPartitionMetadata view topic) partition = some broker.nodeId

/-- The requests carry, up to order, the messages assigned to these partitions. -/
theorem AttemptPlan.messagesIn_perm
    (h : AttemptPlan config view attempt responses planning requests)
    (hplanned : Planned config view topic messages state plan)
    (hget : planning.topicMetadata.get? topic = some plan)
    (hnodup : (unansweredPartitions view topic plan
      (brokersWithoutResponse planning.responsePerBroker)).Nodup) :
    (messagesIn topic requests).Perm
      (((assignments config.partitioner topic (findTopicPartitionMetadata view topic) state
        messages).1.filter fun entry => entry.1 ∈ unansweredPartitions view topic plan
          (brokersWithoutResponse planning.responsePerBroker)).map Prod.snd) := by
  have hgroups : messagesIn topic requests = ((unansweredPartitions view topic plan
      (brokersWithoutResponse planning.responsePerBroker)).flatMap fun partition =>
        (assignments config.partitioner topic (findTopicPartitionMetadata view topic) state
          messages).1.filter fun entry => entry.1 = partition).map Prod.snd := by
    rw [messagesIn, carried, h.partitionsFor_eq, hget, unansweredPartitions]
    simp only [Option.toList_some, List.flatMap_singleton, List.flatMap_assoc, List.map_flatMap,
      groupsFor, planned_leaders hplanned, List.flatMap_map]
    refine List.flatMap_congr fun broker _ => List.flatMap_congr fun partition _ => ?_
    rw [hplanned.groups, groupMessagesPerPartition_get? hplanned.metadata]
  rw [hgroups]
  exact (flatMap_filter_perm Prod.fst _ hnodup).map _

end Topic

/-! ## Aligned attempts -/

section Aligned

variable {κ : Type} (seed : String → Int) (cluster : ClusterView) (topic : String)
  (messages : List (Message κ))

/-- The messages with the partitions that the round robin gives them from a counter on. -/
def roundRobin (count : Option Int) : List (Int × Message κ) :=
  messages.mapIdx fun position message =>
    (partitionAt (findTopicPartitionMetadata cluster topic) (turn count position), message)

/-- Whether a partition is led by a broker that answered. -/
def LeaderAnswered (state : SendState (Message κ) Counters) (partition : Int) : Prop :=
  ∃ broker ∈ state.responsePerBroker.keys, (kept state.responsePerBroker broker).isSome ∧
    leaderOf (findTopicPartitionMetadata cluster topic) partition = some broker.nodeId

/-- `LeaderAnswered` is decidable by going through the responses. -/
instance (state : SendState (Message κ) Counters) (partition : Int) :
    Decidable (LeaderAnswered cluster topic state partition) :=
  inferInstanceAs (Decidable (∃ broker ∈ state.responsePerBroker.keys, _ ∧ _))

/-- The condition on a step. An attempt sees the fixed cluster and starts with nothing in
flight, and the acknowledged messages are those to which the counter, from where it stands now,
gives partitions led by brokers that answered. -/
def Aligned (state : SendState (Message κ) Counters) : SendEvent → Prop
  | .attempt view recovery =>
      SameCluster cluster state (.attempt view recovery) ∧
      (messagesIn topic (acknowledged state.history)).Perm
        (((roundRobin cluster topic messages
          (counterOf seed state.partitioner topic)).filter fun entry =>
            LeaderAnswered cluster topic state entry.1).map Prod.snd)
  | _ => True

/-- A call of `send` under the built-in partitioner. -/
def legacyConfig (murmur2 : κ → Int) (acks : Int) (retries : Nat) :
    SendConfig (Message κ) Counters :=
  { partitioner := legacyPartitioner murmur2 seed
    topicMessages := [(topic, messages)]
    acks := acks
    retries := retries }

variable {seed cluster topic messages}

section Attempt

variable {murmur2 : κ → Int} {acks : Int} {retries : Nat}
  {state : SendState (Message κ) Counters} {view : ClusterView} {retryCount : Nat}
  {planning : Planning (Message κ) Counters} {requests : List (Request (Message κ))}
  {plan : TopicPlan (Message κ)}

/-- Distinct pooled brokers lead distinct partitions. -/
theorem unansweredPartitions_nodup
    (hpooled : ∀ broker ∈ planning.responsePerBroker.keys,
      cluster.pool broker.nodeId = some broker.handle) :
    (unansweredPartitions view topic plan
      (brokersWithoutResponse planning.responsePerBroker)).Nodup := by
  refine List.nodup_flatMap.mpr ⟨fun broker _ =>
    (propertyKeys_nodup (InsertionMap.keys_nodup _)).filter _, ?_⟩
  refine (brokersWithoutResponse_nodup _).pairwise_of_forall_ne ?_
  intro first hfirst second hsecond hne partition hinFirst hinSecond
  simp only [List.mem_filter, decide_eq_true_eq] at hinFirst hinSecond
  exact hne (eq_of_pooled (hpooled first (mem_brokersWithoutResponse.mp hfirst).1)
    (hpooled second (mem_brokersWithoutResponse.mp hsecond).1)
    (Option.some.inj (hinFirst.2.symm.trans hinSecond.2)))

/-- A partition that has messages is led by a broker without an answer unless its leader
answered. -/
theorem mem_unansweredPartitions
    (h : AttemptPlan (legacyConfig seed topic messages murmur2 acks retries) view retryCount
      state.responsePerBroker planning requests)
    (hview : findTopicPartitionMetadata view = findTopicPartitionMetadata cluster)
    (hpooled : ∀ broker ∈ planning.responsePerBroker.keys,
      cluster.pool broker.nodeId = some broker.handle)
    {partitioner : Counters}
    (hplanned : Planned (legacyConfig seed topic messages murmur2 acks retries) view topic
      messages partitioner plan)
    (hget : planning.topicMetadata.get? topic = some plan) {partition : Int}
    (hkey : partition ∈ plan.messagesPerPartition.keys)
    (hentry : partitionEntry (findTopicPartitionMetadata cluster topic) partition ≠ none) :
    partition ∈ unansweredPartitions view topic plan
        (brokersWithoutResponse planning.responsePerBroker) ↔
      ¬ LeaderAnswered cluster topic state partition := by
  simp only [unansweredPartitions, List.mem_flatMap, List.mem_filter, mem_propertyKeys,
    decide_eq_true_eq, mem_brokersWithoutResponse, h.kept_eq, hview]
  constructor
  · rintro ⟨broker, ⟨hbroker, hkept⟩, -, hleader⟩ ⟨other, hother, hsome, hotherLeader⟩
    have hkeys : other ∈ planning.responsePerBroker.keys :=
      mem_keys_of_kept (by rw [h.kept_eq]; exact hsome)
    have heq := eq_of_pooled (hpooled broker hbroker) (hpooled other hkeys)
      (Option.some.inj (hleader.symm.trans hotherLeader))
    simp [← heq, hkept] at hsome
  · intro hnotAnswered
    obtain ⟨entry, hfind⟩ := Option.ne_none_iff_exists'.mp hentry
    obtain ⟨leader, hleader⟩ := findLeaderForPartitions_leader hplanned.leaders
      (mem_propertyKeys.mpr hkey) (hview ▸ hfind)
    obtain ⟨broker, hfound, hbroker⟩ := h.leaders topic plan hget leader
      ((findLeaderForPartitions_keys hplanned.leaders).mpr
        ⟨partition, mem_propertyKeys.mpr hkey, hleader⟩)
    obtain ⟨rfl, -⟩ := findBroker_ok hfound
    rw [hview] at hleader
    refine ⟨broker, ⟨hbroker, ?_⟩, hkey, hleader⟩
    rw [Option.eq_none_iff_forall_ne_some]
    intro entries hsome
    have hanswered : (kept state.responsePerBroker broker).isSome := by simp [hsome]
    exact hnotAnswered ⟨broker, mem_keys_of_kept hanswered, hanswered, hleader⟩

/-- An aligned attempt completes what was acknowledged. -/
theorem Aligned.perm {recovery : Recovery}
    (haligned : Aligned seed cluster topic messages state (.attempt view recovery))
    (hkeyless : ∀ message ∈ messages, message.partition = none ∧ message.key = none)
    (havailable : availablePartitions (findTopicPartitionMetadata cluster topic) ≠ [])
    (hsteady : Steady cluster.pool state)
    (hplan : createProducerRequests (legacyConfig seed topic messages murmur2 acks retries) view
      retryCount state.responsePerBroker state.partitioner = (planning, .ok requests)) :
    (messagesIn topic (acknowledged state.history) ++ messagesIn topic requests).Perm
      messages := by
  obtain ⟨⟨hmetadata, hpool, hempty⟩, hperm⟩ := haligned
  have hview : findTopicPartitionMetadata view = findTopicPartitionMetadata cluster := by
    funext other
    simp only [findTopicPartitionMetadata, hmetadata]
  have h := createProducerRequests_ok (by simp [legacyConfig]) hplan
  have hpooled := (hsteady.sent hempty hpool h).pooled
  obtain ⟨plan, hplanned, hget⟩ := createProducerRequests_single rfl hplan
  -- keyless messages are dealt round robin, from where the counter stands
  have hassigned : (assignments (legacyPartitioner murmur2 seed) topic
      (findTopicPartitionMetadata view topic) state.partitioner messages).1 =
      roundRobin cluster topic messages (counterOf seed state.partitioner topic) := by
    rw [hview, assignments_keyless _ _ _ _ _ _ hkeyless, roundRobin]
  have hnew := h.messagesIn_perm hplanned hget (unansweredPartitions_nodup hpooled)
  simp only [legacyConfig] at hnew
  rw [hassigned] at hnew
  -- this attempt sends exactly the partitions whose leader has not answered
  have hsplit : ∀ entry ∈ roundRobin cluster topic messages
      (counterOf seed state.partitioner topic),
      decide (entry.1 ∈ unansweredPartitions view topic plan
        (brokersWithoutResponse planning.responsePerBroker)) =
      !decide (LeaderAnswered cluster topic state entry.1) := by
    intro entry hentry
    have hkey : entry.1 ∈ plan.messagesPerPartition.keys := by
      rw [hplanned.groups, groupMessagesPerPartition_keys hplanned.metadata]
      exact ⟨entry, by simpa only [legacyConfig, hassigned] using hentry, rfl⟩
    have hlisted : partitionEntry (findTopicPartitionMetadata cluster topic) entry.1 ≠ none := by
      obtain ⟨position, hposition, rfl⟩ := List.mem_mapIdx.mp hentry
      exact partitionEntry_partitionAt havailable _
    simp [mem_unansweredPartitions h hview hpooled hplanned hget hkey hlisted]
  rw [List.filter_congr hsplit] at hnew
  refine (hperm.append hnew).trans ?_
  rw [← List.map_append]
  refine ((List.filter_append_perm _ _).map Prod.snd).trans (List.Perm.of_eq ?_)
  rw [← hassigned, assignments_map_snd]

end Attempt

/-- What holds along every run whose attempts are aligned. -/
structure Completing (cluster : ClusterView) (topic : String) (messages : List (Message κ))
    (state : SendState (Message κ) Counters) : Prop where
  steady : Steady cluster.pool state
  covered : Covered [(topic, messages)] state
  /-- Requests carry nothing for other topics. -/
  single : ∀ other, other ≠ topic → carried other (outstanding state) = []

/-- A call that has sent nothing can still be completed. -/
theorem completing_initial (counters : Counters) :
    Completing cluster topic messages (SendState.initial counters) := by
  refine ⟨steady_initial _ _, .of_failed trivial, ?_⟩
  intro other _
  simp [outstanding, SendState.initial, acknowledged]

/-- Every aligned step keeps it. -/
theorem completing_step {murmur2 : κ → Int} {acks : Int} {retries : Nat} (hacks : acks ≠ 0)
    (hkeyless : ∀ message ∈ messages, message.partition = none ∧ message.key = none)
    (havailable : availablePartitions (findTopicPartitionMetadata cluster topic) ≠ [])
    (state : SendState (Message κ) Counters) (event : SendEvent)
    (next : SendState (Message κ) Counters) (h : Completing cluster topic messages state)
    (haligned : Aligned seed cluster topic messages state event)
    (hstep : step (legacyConfig seed topic messages murmur2 acks retries) state event =
      some next) :
    Completing cluster topic messages next := by
  have htransition := step_cases hacks hstep
  have hsame : SameCluster cluster state event := by
    cases event with
    | attempt _ _ => exact haligned.1
    | attemptFails _ _ => trivial
    | answer _ _ _ => trivial
    | fail _ _ _ => trivial
    | lockFails _ _ _ => trivial
  have hothers : ∀ view recovery retryCount planning requests,
      event = .attempt view recovery →
      createProducerRequests (legacyConfig seed topic messages murmur2 acks retries) view
        retryCount state.responsePerBroker state.partitioner = (planning, .ok requests) →
      ∀ other, other ≠ topic → carried other (outstanding state ++ requests) = [] := by
    intro view recovery retryCount planning requests _ hplan other hne
    have hattempt := createProducerRequests_ok (by simp [legacyConfig]) hplan
    rw [carried_append, h.single other hne, carried, hattempt.partitionsFor_eq,
      hattempt.unplanned other (by simpa [legacyConfig] using hne)]
    simp
  refine ⟨steady_step (by simp [legacyConfig]) h.steady hsame htransition,
    covered_step h.covered htransition ?_, ?_⟩
  · intro view recovery retryCount planning requests hevent hplan
    have hnone := hothers _ _ _ _ _ hevent hplan
    subst hevent
    refine ⟨hsame.2.2, ?_, (createProducerRequests_ok (by simp [legacyConfig]) hplan).attempt_eq⟩
    intro other
    by_cases heq : other = topic
    · subst heq
      have hperm := haligned.perm hkeyless havailable h.steady hplan
      simpa [messagesIn, outstanding, hsame.2.2, messagesOf] using hperm
    · simp [messagesIn, hnone other heq, messagesOf, Ne.symm heq]
  · intro other hne
    rcases outstanding_cases htransition with
      hsub | ⟨view, recovery, retryCount, planning, requests, hevent, hplan, hgrown⟩
    · rw [← List.subperm_nil, ← h.single other hne]
      exact carried_subperm other hsub
    · rw [hgrown]
      exact hothers _ _ _ _ _ hevent hplan other hne

/-- A call under the built-in partitioner, with keyless messages and an unchanging cluster,
delivers every message exactly once before it resolves if its attempts are aligned. -/
theorem sendMessages_roundRobin_exactlyOnce (murmur2 : κ → Int) (seed : String → Int)
    (counters : Counters) (cluster : ClusterView) (topic : String) (messages : List (Message κ))
    (acks : Int) (retries : Nat) (hacks : acks ≠ 0)
    (hkeyless : ∀ message ∈ messages, message.partition = none ∧ message.key = none)
    (havailable : 2 ≤ (availablePartitions (findTopicPartitionMetadata cluster topic)).length)
    (events : List SendEvent) (final : SendState (Message κ) Counters)
    (hrun : run (step (legacyConfig seed topic messages murmur2 acks retries))
      (SendState.initial counters) events = some final)
    (haligned : Meets (step (legacyConfig seed topic messages murmur2 acks retries))
      (Aligned seed cluster topic messages) (SendState.initial counters) events)
    (result : List (Option ResponseEntry)) (hresolved : final.phase = .resolved result) :
    ExactlyOnce [(topic, messages)] final.history := by
  have hsome : availablePartitions (findTopicPartitionMetadata cluster topic) ≠ [] := by
    intro hnil
    simp [hnil] at havailable
  exact (invariant_of_meets (completing_step hacks hkeyless hsome) (completing_initial counters)
    haligned hrun).covered.exactlyOnce hresolved

end Aligned

/-! ## Two brokers -/

/-- Keyless messages, numbered. -/
def keylessMessages (count : Nat) : List (Message String) :=
  (List.range count).map fun id => { id := id }

/-- Two partitions on two brokers. -/
def splitCluster : ClusterView := twoBrokers [⟨0, some 1⟩, ⟨1, some 2⟩]

/-- Two messages over two partitions: the counter moves by a whole round between the attempts,
and the retry after a lost connection delivers what is missing. -/
theorem sendMessages_roundRobin_exactlyOnce_two :
    ∃ final result,
      run (step (legacyConfig (fun _ => 0) "topic" (keylessMessages 2) (fun _ => 0) (-1) 5))
        (SendState.initial InsertionMap.empty)
        (retryAfterLostConnection splitCluster splitCluster ++
          [.answer 0 acceptAll ⟨true, none⟩]) = some final ∧
      final.phase = .resolved result ∧
      ExactlyOnce [("topic", keylessMessages 2)] final.history := by
  have hphase : (run
      (step (legacyConfig (fun _ => 0) "topic" (keylessMessages 2) (fun _ => 0) (-1) 5))
      (SendState.initial InsertionMap.empty)
      (retryAfterLostConnection splitCluster splitCluster ++
        [.answer 0 acceptAll ⟨true, none⟩])).map SendState.phase =
      some (.resolved [some ⟨"topic", 0, 0, 0⟩, some ⟨"topic", 1, 0, 0⟩]) := by
    decide
  obtain ⟨final, hrun, hresolved⟩ := Option.map_eq_some_iff.mp hphase
  refine ⟨final, _, hrun, hresolved, sendMessages_roundRobin_exactlyOnce _ _ _ splitCluster _ _ _
    _ (by decide) (by decide) (by decide) _ _ hrun ?_ _ hresolved⟩
  exact ⟨⟨⟨rfl, rfl, rfl⟩, by decide⟩, trivial, trivial, ⟨⟨rfl, rfl, rfl⟩, by decide⟩, trivial,
    trivial⟩

/-- Three messages over two partitions: the retry assigns them the other way round. Message 1
is delivered twice, messages 0 and 2 are lost, and the call resolves. -/
theorem sendMessages_roundRobin_reassigns :
    ∃ final result,
      run (step (legacyConfig (fun _ => 0) "topic" (keylessMessages 3) (fun _ => 0) (-1) 5))
        (SendState.initial InsertionMap.empty)
        (retryAfterLostConnection splitCluster splitCluster ++
          [.answer 0 acceptAll ⟨true, none⟩]) = some final ∧
      final.phase = .resolved result ∧
      ¬ ExactlyOnce [("topic", keylessMessages 3)] final.history := by
  have hend : (run
      (step (legacyConfig (fun _ => 0) "topic" (keylessMessages 3) (fun _ => 0) (-1) 5))
      (SendState.initial InsertionMap.empty)
      (retryAfterLostConnection splitCluster splitCluster ++
        [.answer 0 acceptAll ⟨true, none⟩])).map
      (fun final => (final.phase, messagesIn "topic" (acknowledged final.history))) =
      some (.resolved [some ⟨"topic", 0, 0, 0⟩, some ⟨"topic", 1, 0, 0⟩],
        [{ id := 1 }, { id := 1 }]) := by
    decide
  obtain ⟨final, hrun, heq⟩ := Option.map_eq_some_iff.mp hend
  simp only [Prod.mk.injEq] at heq
  refine ⟨final, _, hrun, heq.1, fun honce => ?_⟩
  have hperm := honce "topic"
  rw [heq.2] at hperm
  exact absurd hperm.length_eq (by decide)

end KafkaJs.Producer
