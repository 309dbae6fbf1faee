import KafkaJs.Data.Grouping
import KafkaJs.Producer.SendMessages

/-!
# What the requests of one attempt carry

`createProducerRequests_ok` describes a planned attempt: there is one request for each broker
that has no answer yet, and for a topic it carries the groups of the partitions that the broker
leads. `Planned` records where a topic's groups and leaders come from.
-/

namespace KafkaJs.Producer

open Data Cluster

variable {μ σ : Type}

/-- The partitions of a topic in a request. -/
def partitionsFor (topic : String) (topicData : List (TopicData μ)) : List (PartitionData μ) :=
  (topicData.filter fun data => data.topic = topic).flatMap TopicData.partitions

/-- The answer kept for a broker, if there is one. -/
def kept (responses : ResponsePerBroker) (broker : Broker) : Option (List ResponseEntry) :=
  (responses.get? broker).join

/-! ## Reserving brokers -/

/-- Reserving a place keeps every answer. -/
theorem kept_reserve (responses : ResponsePerBroker) (reserved broker : Broker) :
    kept (if responses.has reserved then responses else responses.set reserved none) broker =
      kept responses broker := by
  by_cases h : responses.has reserved = true
  · rw [if_pos h]
  · rw [if_neg h]
    simp only [kept, InsertionMap.get?_set]
    split
    · next heq =>
        subst heq
        rw [InsertionMap.has_iff_mem_keys, ← InsertionMap.get?_eq_none_iff] at h
        rw [h]
        rfl
    · rfl

/-- Reserving a broker adds it and no other. -/
theorem mem_keys_reserve {responses : ResponsePerBroker} {reserved broker : Broker} :
    broker ∈ (if responses.has reserved then responses
        else responses.set reserved none).keys ↔
      broker ∈ responses.keys ∨ broker = reserved := by
  by_cases h : responses.has reserved = true
  · rw [if_pos h]
    refine ⟨Or.inl, ?_⟩
    rintro (hmem | rfl)
    · exact hmem
    · exact InsertionMap.has_iff_mem_keys.mp h
  · rw [if_neg h, InsertionMap.mem_keys_set, or_comm]

/-- A completed reservation keeps every answer, and adds the brokers of the leaders. -/
theorem reserveBrokers_ok {view : ClusterView} {nodeIds : List Int}
    {responses reserved : ResponsePerBroker}
    (h : reserveBrokers view nodeIds responses = (reserved, none)) :
    (∀ broker, kept reserved broker = kept responses broker) ∧
    (∀ broker, broker ∈ reserved.keys ↔
      broker ∈ responses.keys ∨ ∃ nodeId ∈ nodeIds, findBroker view nodeId = .ok broker) ∧
    ∀ nodeId ∈ nodeIds, ∃ broker, findBroker view nodeId = .ok broker := by
  induction nodeIds generalizing responses with
  | nil =>
      cases h
      simp
  | cons nodeId nodeIds ih =>
      simp only [reserveBrokers] at h
      cases hfind : findBroker view nodeId with
      | error error => simp [hfind] at h
      | ok found =>
          simp only [hfind] at h
          obtain ⟨hkept, hkeys, hfound⟩ := ih h
          refine ⟨fun broker => (hkept broker).trans (kept_reserve _ _ _), fun broker => ?_, ?_⟩
          · rw [hkeys, mem_keys_reserve, or_assoc]
            simp [hfind, eq_comm]
          · intro other hother
            rcases List.mem_cons.mp hother with rfl | hmem
            · exact ⟨found, hfind⟩
            · exact hfound other hmem

/-! ## Planning the topics -/

/-- Where the groups and the leaders of a topic's plan come from; `state` is the state of the
partitioner when the topic was planned. -/
structure Planned (config : SendConfig μ σ) (view : ClusterView) (topic : String)
    (messages : List μ) (state : σ) (plan : TopicPlan μ) : Prop where
  metadata : findTopicPartitionMetadata view topic ≠ []
  groups : plan.messagesPerPartition =
    (groupMessagesPerPartition config.partitioner topic (findTopicPartitionMetadata view topic)
      state messages).1
  leaders : findLeaderForPartitions (findTopicPartitionMetadata view topic)
    (propertyKeys plan.messagesPerPartition.keys) = .ok plan.partitionsPerLeader

/-- What planning one topic does when it succeeds. -/
theorem planTopic_ok {config : SendConfig μ σ} {view : ClusterView}
    {planning next : Planning μ σ} {topic : String} {messages : List μ}
    (h : planTopic config view planning topic messages = (next, none)) :
    ∃ plan, Planned config view topic messages planning.partitioner plan ∧
      next.topicMetadata = planning.topicMetadata.set topic plan ∧
      reserveBrokers view (propertyKeys plan.partitionsPerLeader.keys)
        planning.responsePerBroker = (next.responsePerBroker, none) ∧
      next.partitioner = (groupMessagesPerPartition config.partitioner topic
        (findTopicPartitionMetadata view topic) planning.partitioner messages).2 := by
  unfold planTopic at h
  simp only at h
  split at h
  · simp at h
  · next hmetadata =>
      generalize hgroups : groupMessagesPerPartition config.partitioner topic
        (findTopicPartitionMetadata view topic) planning.partitioner messages = groups at h
      obtain ⟨messagesPerPartition, partitioner⟩ := groups
      simp only at h
      split at h
      · simp at h
      · next partitionsPerLeader hleaders =>
          simp only [Prod.mk.injEq] at h
          obtain ⟨rfl, hfailed⟩ := h
          refine ⟨⟨partitionsPerLeader, messagesPerPartition⟩, ⟨hmetadata, ?_, hleaders⟩, rfl,
            ?_, rfl⟩
          · rw [hgroups]
          · exact Prod.ext rfl hfailed

/-- Every planned topic has its plan, other topics keep theirs. -/
theorem planTopics_topicMetadata {config : SendConfig μ σ} {view : ClusterView}
    {planning final : Planning μ σ} {topics : List (String × List μ)}
    (hnodup : (topics.map Prod.fst).Nodup)
    (h : planTopics config view planning topics = (final, none)) :
    (∀ topic messages, (topic, messages) ∈ topics → ∃ state plan,
      Planned config view topic messages state plan ∧
      final.topicMetadata.get? topic = some plan) ∧
    ∀ topic, topic ∉ topics.map Prod.fst →
      final.topicMetadata.get? topic = planning.topicMetadata.get? topic := by
  induction topics generalizing planning with
  | nil =>
      cases h
      simp
  | cons entry rest ih =>
      obtain ⟨first, messages⟩ := entry
      simp only [List.map_cons, List.nodup_cons] at hnodup
      simp only [planTopics] at h
      split at h
      · simp at h
      · next next hfirst =>
          obtain ⟨plan, hplanned, hset, -, -⟩ := planTopic_ok hfirst
          obtain ⟨hplans, hothers⟩ := ih hnodup.2 h
          refine ⟨?_, ?_⟩
          · intro topic given hmem
            rcases List.mem_cons.mp hmem with heq | hmem
            · cases heq
              refine ⟨_, plan, hplanned, ?_⟩
              rw [hothers first hnodup.1, hset, InsertionMap.get?_set_self]
            · exact hplans topic given hmem
          · intro topic habsent
            simp only [List.map_cons, List.mem_cons, not_or] at habsent
            rw [hothers topic habsent.2, hset, InsertionMap.get?_set_of_ne _ _ habsent.1]

/-- Planning keeps every answer, and reserves the brokers of the planned leaders. -/
theorem planTopics_responses {config : SendConfig μ σ} {view : ClusterView}
    {planning final : Planning μ σ} {topics : List (String × List μ)}
    (hnodup : (topics.map Prod.fst).Nodup)
    (h : planTopics config view planning topics = (final, none)) :
    (∀ broker, kept final.responsePerBroker broker = kept planning.responsePerBroker broker) ∧
    (∀ broker ∈ final.responsePerBroker.keys, broker ∈ planning.responsePerBroker.keys ∨
      ∃ nodeId, findBroker view nodeId = .ok broker) ∧
    (∀ broker ∈ planning.responsePerBroker.keys, broker ∈ final.responsePerBroker.keys) ∧
    ∀ topic ∈ topics.map Prod.fst, ∀ plan, final.topicMetadata.get? topic = some plan →
      ∀ nodeId ∈ plan.partitionsPerLeader.keys, ∃ broker,
        findBroker view nodeId = .ok broker ∧ broker ∈ final.responsePerBroker.keys := by
  induction topics generalizing planning with
  | nil =>
      cases h
      simp +contextual
  | cons entry rest ih =>
      obtain ⟨first, messages⟩ := entry
      simp only [List.map_cons, List.nodup_cons] at hnodup
      simp only [planTopics] at h
      split at h
      · simp at h
      · next next hfirst =>
          obtain ⟨plan, -, hset, hreserve, -⟩ := planTopic_ok hfirst
          obtain ⟨hkept, hkeys, hfound⟩ := reserveBrokers_ok hreserve
          obtain ⟨hkeptRest, hfrom, hgrow, hleaders⟩ := ih hnodup.2 h
          have hothers := (planTopics_topicMetadata hnodup.2 h).2 first hnodup.1
          refine ⟨fun broker => (hkeptRest broker).trans (hkept broker), ?_, ?_, ?_⟩
          · intro broker hmem
            rcases hfrom broker hmem with hmem | hbroker
            · rcases (hkeys broker).mp hmem with hmem | ⟨nodeId, -, hbroker⟩
              · exact Or.inl hmem
              · exact Or.inr ⟨nodeId, hbroker⟩
            · exact Or.inr hbroker
          · intro broker hmem
            exact hgrow broker ((hkeys broker).mpr (Or.inl hmem))
          · intro topic hmem other hplan nodeId hnode
            simp only [List.map_cons, List.mem_cons] at hmem
            rcases hmem with rfl | hmem
            · rw [hothers, hset, InsertionMap.get?_set_self] at hplan
              cases hplan
              have hlisted := mem_propertyKeys.mpr hnode
              obtain ⟨broker, hbroker⟩ := hfound nodeId hlisted
              exact ⟨broker, hbroker, hgrow broker
                ((hkeys broker).mpr (Or.inr ⟨nodeId, hlisted, hbroker⟩))⟩
            · exact hleaders topic hmem other hplan nodeId hnode

/-! ## The requests -/

/-- The groups of the partitions of a topic that a broker leads. -/
def groupsFor (plan : TopicPlan μ) (broker : Broker) : List (PartitionData μ) :=
  ((plan.partitionsPerLeader.get? broker.nodeId).getD []).map fun partition =>
    ⟨partition, (plan.messagesPerPartition.get? partition).getD []⟩

/-- For a topic, a broker is sent the groups of the partitions that it leads. -/
theorem partitionsFor_topicDataForBroker (topicMetadata : InsertionMap String (TopicPlan μ))
    (broker : Broker) (topic : String) :
    partitionsFor topic (topicDataForBroker topicMetadata broker) =
      (topicMetadata.get? topic).toList.flatMap fun plan => groupsFor plan broker := by
  have hentries : ∀ entries : List (String × TopicPlan μ),
      partitionsFor topic (entries.filterMap fun entry =>
        (entry.2.partitionsPerLeader.get? broker.nodeId).map (createTopicData entry.1 entry.2)) =
      (entries.filter fun entry => entry.1 = topic).flatMap fun entry =>
        groupsFor entry.2 broker := by
    intro entries
    induction entries with
    | nil => rfl
    | cons entry entries ih =>
        simp only [partitionsFor] at ih ⊢
        cases hled : entry.2.partitionsPerLeader.get? broker.nodeId with
        | none =>
            by_cases htopic : entry.1 = topic
            · simp [hled, htopic, groupsFor, ih]
            · simp [hled, htopic, ih]
        | some partitions =>
            by_cases htopic : entry.1 = topic
            · simp [hled, htopic, groupsFor, createTopicData, ih]
            · simp [hled, htopic, createTopicData, ih]
  rw [topicDataForBroker, hentries, InsertionMap.filter_entries_key]
  cases topicMetadata.get? topic <;> simp

/-- A broker lacks a response when it is reserved and none is kept for it. -/
theorem mem_brokersWithoutResponse {responses : ResponsePerBroker} {broker : Broker} :
    broker ∈ brokersWithoutResponse responses ↔
      broker ∈ responses.keys ∧ kept responses broker = none := by
  simp [brokersWithoutResponse, kept]

/-- No broker is listed twice. -/
theorem brokersWithoutResponse_nodup (responses : ResponsePerBroker) :
    (brokersWithoutResponse responses).Nodup :=
  responses.keys_nodup.filter _

/-- What a planned attempt sends. -/
structure AttemptPlan (config : SendConfig μ σ) (view : ClusterView) (attempt : Nat)
    (responses : ResponsePerBroker) (planning : Planning μ σ) (requests : List (Request μ)) :
    Prop where
  /-- Every topic of the call has a plan. -/
  planned : ∀ topic messages, (topic, messages) ∈ config.topicMessages → ∃ state plan,
    Planned config view topic messages state plan ∧
    planning.topicMetadata.get? topic = some plan
  /-- No other topic has one. -/
  unplanned : ∀ topic, topic ∉ config.topicMessages.map Prod.fst →
    planning.topicMetadata.get? topic = none
  /-- Planning keeps every answer. -/
  kept_eq : ∀ broker, kept planning.responsePerBroker broker = kept responses broker
  /-- Brokers in the response map were there before or are pooled now. -/
  origin : ∀ broker ∈ planning.responsePerBroker.keys,
    broker ∈ responses.keys ∨ ∃ nodeId, findBroker view nodeId = .ok broker
  /-- Every leader has its broker in the response map. -/
  leaders : ∀ topic plan, planning.topicMetadata.get? topic = some plan →
    ∀ nodeId ∈ plan.partitionsPerLeader.keys, ∃ broker,
      findBroker view nodeId = .ok broker ∧ broker ∈ planning.responsePerBroker.keys
  /-- There is one request for each broker without an answer. -/
  requests_eq : requests =
    (brokersWithoutResponse planning.responsePerBroker).map fun broker =>
      { attempt := attempt
        broker := broker
        topicData := topicDataForBroker planning.topicMetadata broker }

/-- The specification of `createProducerRequests`. -/
theorem createProducerRequests_ok {config : SendConfig μ σ} {view : ClusterView}
    {attempt : Nat} {responses : ResponsePerBroker} {partitioner : σ}
    {planning : Planning μ σ} {requests : List (Request μ)}
    (hnodup : (config.topicMessages.map Prod.fst).Nodup)
    (h : createProducerRequests config view attempt responses partitioner =
      (planning, .ok requests)) :
    AttemptPlan config view attempt responses planning requests := by
  unfold createProducerRequests at h
  split at h
  · simp at h
  · next final hplan =>
      simp only [Prod.mk.injEq, Except.ok.injEq] at h
      obtain ⟨rfl, rfl⟩ := h
      obtain ⟨hplanned, hothers⟩ := planTopics_topicMetadata hnodup hplan
      obtain ⟨hkept, horigin, -, hleaders⟩ := planTopics_responses hnodup hplan
      refine ⟨hplanned, hothers, hkept, horigin, ?_, rfl⟩
      intro topic plan hget nodeId hnode
      by_cases hmem : topic ∈ config.topicMessages.map Prod.fst
      · exact hleaders topic hmem plan hget nodeId hnode
      · rw [hothers topic hmem] at hget
        cases hget

/-- For a topic, the requests of an attempt carry the groups led by the brokers without an
answer. -/
theorem AttemptPlan.partitionsFor_eq {config : SendConfig μ σ} {view : ClusterView}
    {attempt : Nat} {responses : ResponsePerBroker} {planning : Planning μ σ}
    {requests : List (Request μ)}
    (h : AttemptPlan config view attempt responses planning requests) (topic : String) :
    (requests.flatMap fun request => partitionsFor topic request.topicData) =
      (brokersWithoutResponse planning.responsePerBroker).flatMap fun broker =>
        (planning.topicMetadata.get? topic).toList.flatMap fun plan => groupsFor plan broker := by
  rw [h.requests_eq, List.flatMap_map]
  exact List.flatMap_congr fun broker _ => partitionsFor_topicDataForBroker _ _ _

/-- The requests of an attempt carry its number. -/
theorem AttemptPlan.attempt_eq {config : SendConfig μ σ} {view : ClusterView}
    {attempt : Nat} {responses : ResponsePerBroker} {planning : Planning μ σ}
    {requests : List (Request μ)}
    (h : AttemptPlan config view attempt responses planning requests) :
    ∀ request ∈ requests, request.attempt = attempt := by
  intro request hmem
  rw [h.requests_eq] at hmem
  obtain ⟨broker, -, rfl⟩ := List.mem_map.mp hmem
  rfl

end KafkaJs.Producer
