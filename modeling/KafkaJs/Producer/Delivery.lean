import KafkaJs.Producer.SendSteps
import Mathlib.Data.List.Flatten

/-!
# Delivery of the messages of one call

The requests that count for delivery are the acknowledged ones and those in flight; together
they are the `outstanding` requests. Only a new attempt adds to them. `Covered` is the invariant
behind exactly-once delivery: while the requests of an attempt are awaited, the outstanding
requests carry every message once, and when the call resolves nothing is in flight any more.

The attempts of `sendMessages` keep it as long as every partition is led by a broker whose place
in the response map agrees with what became of the partition: `Routed`. A leader that answered
earlier, for other partitions, is skipped and the partition is lost; a partition that was
acknowledged by another broker, or is still in flight, is sent again.
-/

namespace KafkaJs.Producer

open Data Cluster Execution

variable {μ σ : Type}

/-! ## Outstanding requests -/

/-- The requests that were acknowledged or may still be. -/
def outstanding (state : SendState μ σ) : List (Request μ) :=
  acknowledged state.history ++ state.inFlight

/-- The same requests in another order carry the same messages in another order. -/
theorem carried_perm {first second : List (Request μ)} (topic : String)
    (h : first.Perm second) : (carried topic first).Perm (carried topic second) :=
  h.flatMap_right _

/-- Fewer requests carry fewer messages. -/
theorem carried_subperm {first second : List (Request μ)} (topic : String)
    (h : first.Subperm second) : (carried topic first).Subperm (carried topic second) := by
  obtain ⟨list, hperm, hsub⟩ := h
  exact ⟨carried topic list, carried_perm topic hperm, hsub.flatMap _⟩

/-- Every message given to the call is carried once. -/
def CarriesAll (topicMessages : List (String × List μ)) (requests : List (Request μ)) : Prop :=
  ∀ topic, (messagesIn topic requests).Perm (messagesOf topicMessages topic)

/-- Whether requests carry all the messages of a call does not depend on their order. -/
theorem CarriesAll.of_perm {topicMessages : List (String × List μ)}
    {first second : List (Request μ)} (h : first.Perm second)
    (hall : CarriesAll topicMessages second) : CarriesAll topicMessages first := fun topic =>
  ((carried_perm topic h).flatMap_right _).trans (hall topic)

/-- Answering a request moves it among the outstanding ones. -/
theorem outstanding_succeeded {state : SendState μ σ} {index : Nat} {request : Request μ}
    (hrequest : state.inFlight[index]? = some request) {entries : List ResponseEntry}
    (hsucceeded : Succeeded entries) :
    (acknowledged (state.history ++ [Happening.answered request entries]) ++
      state.inFlight.eraseIdx index).Perm (outstanding state) := by
  obtain ⟨hindex, hget⟩ := List.getElem?_eq_some_iff.mp hrequest
  rw [acknowledged_append, acknowledged_answered, if_pos hsucceeded, outstanding,
    List.append_assoc, List.singleton_append, ← hget]
  exact (List.getElem_cons_eraseIdx_perm hindex).append_left _

/-- The fields that `resolveIfDone` leaves alone. -/
@[simp] theorem resolveIfDone_history (state : SendState μ σ) :
    (resolveIfDone state).history = state.history := by
  unfold resolveIfDone
  split
  · split <;> rfl
  · rfl

/-- Resolving the call sends nothing and answers nothing. -/
@[simp] theorem resolveIfDone_inFlight (state : SendState μ σ) :
    (resolveIfDone state).inFlight = state.inFlight := by
  unfold resolveIfDone
  split
  · split <;> rfl
  · rfl

/-- Resolving the call keeps the recorded responses. -/
@[simp] theorem resolveIfDone_responsePerBroker (state : SendState μ σ) :
    (resolveIfDone state).responsePerBroker = state.responsePerBroker := by
  unfold resolveIfDone
  split
  · split <;> rfl
  · rfl

/-- A failed request leaves the outstanding ones. -/
theorem outstanding_failed {state next : SendState μ σ} {index : Nat} {request : Request μ}
    {event : SendEvent} (hinFlight : next.inFlight = state.inFlight.eraseIdx index)
    (hhistory : next.history = state.history ∨ ∃ answer recovery,
      event = .answer index answer recovery ∧
      ¬ Succeeded (responseEntries request.topicData answer) ∧
      next.history = state.history ++
        [.answered request (responseEntries request.topicData answer)]) :
    (outstanding next).Sublist (outstanding state) := by
  have hacknowledged : acknowledged next.history = acknowledged state.history := by
    rcases hhistory with hsame | ⟨_, _, -, hfailed, hanswered⟩
    · rw [hsame]
    · simp [hanswered, acknowledged_answered, hfailed]
  rw [outstanding, hacknowledged, hinFlight, outstanding]
  exact (List.eraseIdx_sublist _ _).append_left _

/-- Only a new attempt adds to the outstanding requests. -/
theorem outstanding_cases {config : SendConfig μ σ} {state next : SendState μ σ}
    {event : SendEvent} (h : Transition config state event next) :
    (outstanding next).Subperm (outstanding state) ∨
    ∃ view recovery retryCount planning requests, event = .attempt view recovery ∧
      createProducerRequests config view retryCount state.responsePerBroker state.partitioner =
        (planning, .ok requests) ∧
      outstanding next = outstanding state ++ requests := by
  cases h with
  | notSent _ _ _ _ _ hinFlight hhistory =>
      rw [outstanding, hinFlight, hhistory]
      exact Or.inl (List.Subperm.refl _)
  | @sent view recovery retryCount planning requests _ hplan =>
      refine Or.inr ⟨view, recovery, retryCount, planning, requests, rfl, hplan, ?_⟩
      simp [outstanding]
  | succeeded request hrequest hsucceeded =>
      rw [outstanding, resolveIfDone_history, resolveIfDone_inFlight]
      exact Or.inl (outstanding_succeeded hrequest hsucceeded).subperm
  | failed index request _ hinFlight _ hhistory _ =>
      exact Or.inl (outstanding_failed hinFlight hhistory).subperm

/-! ## Covering -/

/-- While requests are awaited, they belong to one attempt and the outstanding requests carry
every message once; a resolved call awaits nothing. -/
structure Covered (topicMessages : List (String × List μ)) (state : SendState μ σ) : Prop where
  sending : ∀ retryCount, state.phase = .sending retryCount →
    (∀ request ∈ state.inFlight, request.attempt = retryCount) ∧
    CarriesAll topicMessages (outstanding state)
  resolved : ∀ result, state.phase = .resolved result →
    state.inFlight = [] ∧ CarriesAll topicMessages (outstanding state)

/-- A call that has not sent anything, or failed, is covered. -/
theorem Covered.of_failed {topicMessages : List (String × List μ)} {state : SendState μ σ}
    (h : state.phase.Failed) : Covered topicMessages state := by
  refine ⟨?_, ?_⟩
  · intro retryCount hphase
    simp [hphase, Phase.Failed] at h
  · intro result hphase
    simp [hphase, Phase.Failed] at h

/-- Resolving once the requests of the attempt are done keeps the covering. -/
theorem Covered.resolveIfDone {topicMessages : List (String × List μ)} {state : SendState μ σ}
    (h : Covered topicMessages state) : Covered topicMessages (resolveIfDone state) := by
  cases hphase : state.phase with
  | sending retryCount =>
      obtain ⟨hattempt, hall⟩ := h.sending retryCount hphase
      simp only [Producer.resolveIfDone, hphase]
      split
      · exact h
      · next hdone =>
          refine ⟨by simp, fun result _ => ⟨?_, hall⟩⟩
          rw [List.eq_nil_iff_forall_not_mem]
          intro request hmem
          refine hdone (List.any_eq_true.mpr ⟨request, hmem, ?_⟩)
          simpa using hattempt request hmem
  | waiting _ => simpa only [Producer.resolveIfDone, hphase] using h
  | resolved _ => simpa only [Producer.resolveIfDone, hphase] using h
  | rejected _ => simpa only [Producer.resolveIfDone, hphase] using h

/-- Covering is kept by every step whose attempts start with nothing in flight and send what
was not acknowledged yet. -/
theorem covered_step {config : SendConfig μ σ} {topicMessages : List (String × List μ)}
    {state next : SendState μ σ} {event : SendEvent} (hcovered : Covered topicMessages state)
    (htransition : Transition config state event next)
    (hsent : ∀ view recovery retryCount planning requests, event = .attempt view recovery →
      createProducerRequests config view retryCount state.responsePerBroker state.partitioner =
        (planning, .ok requests) →
      state.inFlight = [] ∧ CarriesAll topicMessages (outstanding state ++ requests) ∧
      ∀ request ∈ requests, request.attempt = retryCount) :
    Covered topicMessages next := by
  cases htransition with
  | notSent _ _ _ _ hfailed _ _ => exact .of_failed hfailed
  | sent retryCount planning requests _ hplan =>
      obtain ⟨hempty, hall, hattempt⟩ := hsent _ _ _ _ _ rfl hplan
      refine Covered.resolveIfDone ⟨?_, by simp⟩
      intro current hphase
      cases hphase
      refine ⟨by simpa [hempty] using hattempt, ?_⟩
      simpa [outstanding] using hall
  | succeeded request hrequest hsucceeded =>
      have hperm := outstanding_succeeded hrequest hsucceeded
      refine Covered.resolveIfDone ⟨?_, ?_⟩
      · intro retryCount hphase
        obtain ⟨hattempt, hall⟩ := hcovered.sending retryCount hphase
        exact ⟨fun other hmem => hattempt other (List.mem_of_mem_eraseIdx hmem),
          hall.of_perm hperm⟩
      · intro result hphase
        obtain ⟨hempty, -⟩ := hcovered.resolved result hphase
        simp [hempty] at hrequest
  | failed index request hrequest _ _ _ hphases =>
      have hmem := List.mem_of_getElem? hrequest
      -- a request of an earlier attempt fails without effect, one of this attempt fails the attempt
      rcases hphases with ⟨hother, hsame⟩ | hfailed
      · refine ⟨?_, ?_⟩
        · intro retryCount hphase
          rw [hsame] at hphase
          exact absurd ((hcovered.sending retryCount hphase).1 request hmem)
            (hother retryCount hphase)
        · intro result hphase
          rw [hsame] at hphase
          rw [(hcovered.resolved result hphase).1] at hmem
          simp at hmem
      · exact .of_failed hfailed

/-- A resolved call that is covered delivered every message once. -/
theorem Covered.exactlyOnce {topicMessages : List (String × List μ)} {state : SendState μ σ}
    (h : Covered topicMessages state) {result : List (Option ResponseEntry)}
    (hphase : state.phase = .resolved result) : ExactlyOnce topicMessages state.history := by
  obtain ⟨hempty, hall⟩ := h.resolved result hphase
  intro topic
  simpa [outstanding, hempty] using hall topic

/-! ## Pure partitioners -/

section Pure

variable (partitionOf : String → μ → Int) (topicMessages : List (String × List μ))

/-- A call of `sendBatch` with a partitioner that is a pure function of the message. -/
def pureConfig (acks : Int) (retries : Nat) : SendConfig μ Unit :=
  { partitioner := purePartitioner partitionOf
    topicMessages := mergeTopicMessages topicMessages
    acks := acks
    retries := retries }

/-- The messages of a topic that belong to a partition. -/
def messagesFor (topic : String) (partition : Int) : List μ :=
  (messagesOf topicMessages topic).filter fun message => partitionOf topic message = partition

/-- Every carried partition comes with all of its messages, and is carried once. -/
def Grouped (requests : List (Request μ)) : Prop :=
  ∀ topic, (∀ data ∈ carried topic requests,
      data.messages = messagesFor partitionOf topicMessages topic data.partition) ∧
    ((carried topic requests).map PartitionData.partition).Nodup

variable {partitionOf topicMessages}

/-- Some of the requests of a grouped call are grouped as well. -/
theorem Grouped.of_subperm {first second : List (Request μ)} (h : first.Subperm second)
    (hgrouped : Grouped partitionOf topicMessages second) :
    Grouped partitionOf topicMessages first := by
  intro topic
  obtain ⟨hmessages, hnodup⟩ := hgrouped topic
  have hcarried := carried_subperm topic h
  refine ⟨fun data hmem => hmessages data (hcarried.subset hmem), ?_⟩
  obtain ⟨list, hperm, hsub⟩ := hcarried
  exact (hperm.map _).nodup_iff.mp (hnodup.sublist (hsub.map _))

/-- Grouped requests that carry the partition of every message carry every message once. -/
theorem Grouped.carriesAll {requests : List (Request μ)}
    (hgrouped : Grouped partitionOf topicMessages requests)
    (hpartitions : ∀ topic, ∀ message ∈ messagesOf topicMessages topic,
      partitionOf topic message ∈ (carried topic requests).map PartitionData.partition) :
    CarriesAll topicMessages requests := by
  intro topic
  obtain ⟨hmessages, hnodup⟩ := hgrouped topic
  have hregroup := flatMap_filter_perm (partitionOf topic) (messagesOf topicMessages topic) hnodup
  rw [List.filter_eq_self.mpr (by simpa using hpartitions topic), List.flatMap_map] at hregroup
  refine List.Perm.trans (List.Perm.of_eq ?_) hregroup
  refine List.flatMap_congr fun data hmem => ?_
  rw [hmessages data hmem, messagesFor]

/-! ### What an attempt sends -/

/-- With a pure partitioner a group holds the messages that belong to its partition. -/
theorem planned_pure {acks : Int} {retries : Nat} {view : ClusterView} {topic : String}
    {messages : List μ} {state : Unit} {plan : TopicPlan μ}
    (hmem : (topic, messages) ∈ mergeTopicMessages topicMessages)
    (h : Planned (pureConfig partitionOf topicMessages acks retries) view topic messages state
      plan) :
    (∀ partition, (plan.messagesPerPartition.get? partition).getD [] =
      messagesFor partitionOf topicMessages topic partition) ∧
    ∀ partition, partition ∈ plan.messagesPerPartition.keys ↔
      ∃ message ∈ messagesOf topicMessages topic, partitionOf topic message = partition := by
  have hgiven : messagesOf topicMessages topic = messages := by
    rw [← messagesOf_mergeTopicMessages]
    exact messagesOf_of_mem (mergeTopicMessages_nodup _) hmem
  rw [h.groups]
  refine ⟨fun partition => ?_, fun partition => ?_⟩
  · rw [groupMessagesPerPartition_get? h.metadata, messagesFor, hgiven, pureConfig,
      assignments_pure]
    simp [List.filter_map, Function.comp_def]
  · rw [groupMessagesPerPartition_keys h.metadata, hgiven, pureConfig, assignments_pure]
    simp

/-- The leaders of the groups of a planned topic. -/
theorem planned_leaders {config : SendConfig μ σ} {view : ClusterView} {topic : String}
    {messages : List μ} {state : σ} {plan : TopicPlan μ}
    (h : Planned config view topic messages state plan) (nodeId : Int) :
    (plan.partitionsPerLeader.get? nodeId).getD [] =
      (propertyKeys plan.messagesPerPartition.keys).filter fun partition =>
        leaderOf (findTopicPartitionMetadata view topic) partition = some nodeId :=
  findLeaderForPartitions_ok h.leaders nodeId

section Attempt

variable {acks : Int} {retries : Nat} {view : ClusterView} {attempt : Nat}
  {responses : ResponsePerBroker} {planning : Planning μ Unit} {requests : List (Request μ)}

/-- A topic has a plan, or it has no messages. -/
theorem AttemptPlan.plan_cases
    (h : AttemptPlan (pureConfig partitionOf topicMessages acks retries) view attempt responses
      planning requests) (topic : String) :
    (∃ messages state plan, (topic, messages) ∈ mergeTopicMessages topicMessages ∧
      Planned (pureConfig partitionOf topicMessages acks retries) view topic messages state
        plan ∧
      planning.topicMetadata.get? topic = some plan) ∨
    (planning.topicMetadata.get? topic = none ∧ messagesOf topicMessages topic = []) := by
  by_cases hmem : topic ∈ (mergeTopicMessages topicMessages).map Prod.fst
  · obtain ⟨⟨first, messages⟩, hentry, heq⟩ := List.mem_map.mp hmem
    cases heq
    obtain ⟨state, plan, hplanned, hget⟩ := h.planned _ _ hentry
    exact Or.inl ⟨messages, state, plan, hentry, hplanned, hget⟩
  · refine Or.inr ⟨h.unplanned topic hmem, ?_⟩
    rw [← messagesOf_mergeTopicMessages, messagesOf_of_notMem hmem]

/-- What a broker is sent for a topic: the partitions of the messages that it leads, with all
their messages. -/
theorem AttemptPlan.mem_partitionsFor
    (h : AttemptPlan (pureConfig partitionOf topicMessages acks retries) view attempt responses
      planning requests) {topic : String} {broker : Broker} {data : PartitionData μ} :
    data ∈ partitionsFor topic (topicDataForBroker planning.topicMetadata broker) ↔
      leaderOf (findTopicPartitionMetadata view topic) data.partition = some broker.nodeId ∧
      (∃ message ∈ messagesOf topicMessages topic, partitionOf topic message = data.partition) ∧
      data.messages = messagesFor partitionOf topicMessages topic data.partition := by
  rw [partitionsFor_topicDataForBroker]
  rcases h.plan_cases topic with ⟨messages, state, plan, hentry, hplanned, hget⟩ | ⟨hget, hnone⟩
  · obtain ⟨hmessages, hkeys⟩ := planned_pure hentry hplanned
    obtain ⟨partition, group⟩ := data
    simp only [hget, Option.toList_some, List.flatMap_singleton, groupsFor,
      planned_leaders hplanned, hmessages, List.mem_map, List.mem_filter, mem_propertyKeys,
      hkeys, PartitionData.mk.injEq, decide_eq_true_eq]
    constructor
    · rintro ⟨_, ⟨hexists, hleader⟩, rfl, rfl⟩
      exact ⟨hleader, hexists, rfl⟩
    · rintro ⟨hleader, hexists, rfl⟩
      exact ⟨partition, ⟨hexists, hleader⟩, rfl, rfl⟩
  · simp [hget, hnone]

/-- What the requests of an attempt carry: the partitions of the messages that are led by a
broker without an answer, with all their messages. -/
theorem AttemptPlan.mem_carried
    (h : AttemptPlan (pureConfig partitionOf topicMessages acks retries) view attempt responses
      planning requests) {topic : String} {data : PartitionData μ} :
    data ∈ carried topic requests ↔
      (∃ broker ∈ planning.responsePerBroker.keys, kept responses broker = none ∧
        leaderOf (findTopicPartitionMetadata view topic) data.partition = some broker.nodeId) ∧
      (∃ message ∈ messagesOf topicMessages topic, partitionOf topic message = data.partition) ∧
      data.messages = messagesFor partitionOf topicMessages topic data.partition := by
  rw [carried, h.requests_eq, List.flatMap_map, List.mem_flatMap]
  simp only [mem_brokersWithoutResponse, h.kept_eq, h.mem_partitionsFor]
  constructor
  · rintro ⟨broker, ⟨hbroker, hkept⟩, hleader, hrest⟩
    exact ⟨⟨broker, hbroker, hkept, hleader⟩, hrest⟩
  · rintro ⟨⟨broker, hbroker, hkept, hleader⟩, hrest⟩
    exact ⟨broker, ⟨hbroker, hkept⟩, hleader, hrest⟩

/-- The leader of a message's partition has its broker in the response map. -/
theorem AttemptPlan.exists_broker
    (h : AttemptPlan (pureConfig partitionOf topicMessages acks retries) view attempt responses
      planning requests) {topic : String} {message : μ}
    (hmessage : message ∈ messagesOf topicMessages topic) {leader : Int}
    (hleader : leaderOf (findTopicPartitionMetadata view topic) (partitionOf topic message) =
      some leader) :
    ∃ broker, findBroker view leader = .ok broker ∧ broker ∈ planning.responsePerBroker.keys := by
  rcases h.plan_cases topic with ⟨messages, state, plan, hentry, hplanned, hget⟩ | ⟨-, hnone⟩
  · obtain ⟨-, hkeys⟩ := planned_pure hentry hplanned
    refine h.leaders topic plan hget leader ?_
    rw [findLeaderForPartitions_keys hplanned.leaders]
    exact ⟨_, mem_propertyKeys.mpr ((hkeys _).mpr ⟨message, hmessage, rfl⟩), hleader⟩
  · simp [hnone] at hmessage

/-- The requests of an attempt carry no partition twice if no two brokers without an answer
stand for the leader of a partition. -/
theorem AttemptPlan.carried_nodup
    (h : AttemptPlan (pureConfig partitionOf topicMessages acks retries) view attempt responses
      planning requests) (topic : String)
    (hunique : ∀ message ∈ messagesOf topicMessages topic, ∀ leader,
      leaderOf (findTopicPartitionMetadata view topic) (partitionOf topic message) =
        some leader →
      ∀ first ∈ planning.responsePerBroker.keys, ∀ second ∈ planning.responsePerBroker.keys,
        kept responses first = none → kept responses second = none →
        first.nodeId = leader → second.nodeId = leader → first = second) :
    ((carried topic requests).map PartitionData.partition).Nodup := by
  rw [carried, h.partitionsFor_eq]
  rcases h.plan_cases topic with ⟨messages, state, plan, hentry, hplanned, hget⟩ | ⟨hnone, -⟩
  · obtain ⟨-, hkeys⟩ := planned_pure hentry hplanned
    -- per broker these are the partitions that it leads, each once
    have hgroup : ∀ broker, (groupsFor plan broker).map PartitionData.partition =
        (propertyKeys plan.messagesPerPartition.keys).filter fun partition =>
          leaderOf (findTopicPartitionMetadata view topic) partition = some broker.nodeId := by
      intro broker
      rw [groupsFor, planned_leaders hplanned, List.map_map]
      exact List.map_id' _
    simp only [hget, Option.toList_some, List.flatMap_singleton, List.map_flatMap, hgroup]
    refine List.nodup_flatMap.mpr ⟨fun broker _ => ?_, ?_⟩
    · exact (propertyKeys_nodup (InsertionMap.keys_nodup _)).filter _
    · refine (brokersWithoutResponse_nodup _).pairwise_of_forall_ne ?_
      -- two brokers with a partition in common would both stand for its leader
      intro first hfirst second hsecond hne partition hinFirst hinSecond
      simp only [List.mem_filter, mem_propertyKeys, hkeys, decide_eq_true_eq] at hinFirst hinSecond
      obtain ⟨⟨message, hmessage, rfl⟩, hleader⟩ := hinFirst
      rw [mem_brokersWithoutResponse, h.kept_eq] at hfirst hsecond
      exact hne (hunique message hmessage _ hleader first hfirst.1 second hsecond.1 hfirst.2
        hsecond.2 rfl (Option.some.inj (hinSecond.2.symm.trans hleader)))
  · rw [List.flatMap_eq_nil_iff.mpr (by simp [hnone])]
    exact List.nodup_nil

end Attempt

/-! ### Leaders that move -/

/-- The condition on a message when an attempt starts. Its partition has a metadata entry, and
if the partition has a leader: the leader's pooled broker answered in this call exactly if the
partition was acknowledged, and a broker object of that node that still waits for its answer is
the pooled one. -/
def RoutedMessage (partitionOf : String → μ → Int) (state : SendState μ Unit)
    (view : ClusterView) (topic : String) (message : μ) : Prop :=
  let metadata := findTopicPartitionMetadata view topic
  let partition := partitionOf topic message
  partitionEntry metadata partition ≠ none ∧
  ∀ leader ∈ leaderOf metadata partition,
    (∀ broker ∈ (findBroker view leader).toOption,
      ((kept state.responsePerBroker broker).isSome ↔
        partition ∈ (carried topic (acknowledged state.history)).map PartitionData.partition)) ∧
    ∀ broker ∈ state.responsePerBroker.keys, broker.nodeId = leader →
      kept state.responsePerBroker broker = none → view.pool leader = some broker.handle

/-- `RoutedMessage` is decidable by looking the partition up in the view. -/
instance (partitionOf : String → μ → Int) (state : SendState μ Unit) (view : ClusterView)
    (topic : String) (message : μ) :
    Decidable (RoutedMessage partitionOf state view topic message) :=
  inferInstanceAs (Decidable (_ ∧ _))

variable (partitionOf topicMessages) in
/-- The condition on a step: an attempt starts with nothing in flight, and every message of a
topic whose metadata is loaded is routed. -/
def Routed (state : SendState μ Unit) : SendEvent → Prop
  | .attempt view _ =>
      state.inFlight = [] ∧
      ∀ entry ∈ topicMessages, findTopicPartitionMetadata view entry.1 ≠ [] →
        ∀ message ∈ entry.2, RoutedMessage partitionOf state view entry.1 message
  | _ => True

/-- `Routed` is decidable by the event. -/
instance (state : SendState μ Unit) (event : SendEvent) :
    Decidable (Routed partitionOf topicMessages state event) :=
  match event with
  | .attempt _ _ => inferInstanceAs (Decidable (_ ∧ _))
  | .attemptFails _ _ | .answer _ _ _ | .fail _ _ _ | .lockFails _ _ _ => isTrue trivial

section RoutedAttempt

variable {acks : Int} {retries : Nat} {state : SendState μ Unit} {view : ClusterView}
  {retryCount : Nat} {planning : Planning μ Unit} {requests : List (Request μ)}

/-- In a planned attempt every routed message has a leader, whose broker was found. -/
theorem AttemptPlan.exists_leader
    (h : AttemptPlan (pureConfig partitionOf topicMessages acks retries) view retryCount
      state.responsePerBroker planning requests) {topic : String} {message : μ}
    (hmessage : message ∈ messagesOf topicMessages topic)
    (hrouted : RoutedMessage partitionOf state view topic message) :
    ∃ broker, leaderOf (findTopicPartitionMetadata view topic) (partitionOf topic message) =
        some broker.nodeId ∧
      findBroker view broker.nodeId = .ok broker ∧
      broker ∈ planning.responsePerBroker.keys := by
  rcases h.plan_cases topic with ⟨messages, other, plan, hentry, hplanned, -⟩ | ⟨-, hnone⟩
  · obtain ⟨entry, hget⟩ := Option.ne_none_iff_exists'.mp hrouted.1
    obtain ⟨leader, hleader⟩ := findLeaderForPartitions_leader hplanned.leaders
      (mem_propertyKeys.mpr
        (((planned_pure hentry hplanned).2 _).mpr ⟨message, hmessage, rfl⟩)) hget
    obtain ⟨broker, hfound, hbroker⟩ := h.exists_broker hmessage hleader
    obtain ⟨rfl, -⟩ := findBroker_ok hfound
    exact ⟨broker, hleader, hfound, hbroker⟩
  · simp [hnone] at hmessage

/-- In a planned attempt the only broker without an answer that stands for the leader of a
routed message is the one that was found. -/
theorem AttemptPlan.unanswered_unique
    (h : AttemptPlan (pureConfig partitionOf topicMessages acks retries) view retryCount
      state.responsePerBroker planning requests) {topic : String} {message : μ}
    (hrouted : RoutedMessage partitionOf state view topic message) {leader broker : Broker}
    (hleader : leaderOf (findTopicPartitionMetadata view topic) (partitionOf topic message) =
      some leader.nodeId)
    (hfound : findBroker view leader.nodeId = .ok leader)
    (hbroker : broker ∈ planning.responsePerBroker.keys)
    (hkept : kept state.responsePerBroker broker = none)
    (hnode : broker.nodeId = leader.nodeId) : broker = leader := by
  have hpool : view.pool broker.nodeId = some broker.handle := by
    rcases h.origin broker hbroker with hold | ⟨nodeId, hother⟩
    · rw [hnode]
      exact (hrouted.2 _ hleader).2 broker hold hnode hkept
    · obtain ⟨rfl, hpool⟩ := findBroker_ok hother
      exact hpool
  exact eq_of_pooled hpool (findBroker_ok hfound).2 hnode

/-- The messages of a planned call are routed. -/
theorem Routed.message {recovery : Recovery}
    (hrouted : Routed partitionOf topicMessages state (.attempt view recovery))
    (h : AttemptPlan (pureConfig partitionOf topicMessages acks retries) view retryCount
      state.responsePerBroker planning requests) {topic : String} {message : μ}
    (hmessage : message ∈ messagesOf topicMessages topic) :
    RoutedMessage partitionOf state view topic message := by
  rcases h.plan_cases topic with ⟨_, _, _, _, hplanned, -⟩ | ⟨-, hnone⟩
  · obtain ⟨entry, hentry, rfl, hmem⟩ := mem_messagesOf.mp hmessage
    exact hrouted.2 entry hentry hplanned.metadata message hmem
  · simp [hnone] at hmessage

/-- A routed attempt sends no partition that was acknowledged, and none twice. -/
theorem routed_grouped {recovery : Recovery}
    (hgrouped : Grouped partitionOf topicMessages (acknowledged state.history))
    (hrouted : Routed partitionOf topicMessages state (.attempt view recovery))
    (h : AttemptPlan (pureConfig partitionOf topicMessages acks retries) view retryCount
      state.responsePerBroker planning requests) :
    Grouped partitionOf topicMessages (acknowledged state.history ++ requests) := by
  intro topic
  obtain ⟨hmessages, hnodup⟩ := hgrouped topic
  rw [carried_append, List.map_append]
  refine ⟨?_, hnodup.append ?_ ?_⟩
  · intro data hmem
    rcases List.mem_append.mp hmem with hold | hnew
    · exact hmessages data hold
    · exact (h.mem_carried.mp hnew).2.2
  · refine h.carried_nodup topic ?_
    intro message hmessage leader hleader first hfirst second hsecond hkeptFirst hkeptSecond
      hfirstLeads hsecondLeads
    have hmessageRouted := hrouted.message h hmessage
    obtain ⟨broker, hbrokerLeads, hfound, -⟩ := h.exists_leader hmessage hmessageRouted
    have hnode : leader = broker.nodeId := Option.some.inj (hleader.symm.trans hbrokerLeads)
    rw [h.unanswered_unique hmessageRouted hbrokerLeads hfound hfirst hkeptFirst
        (hfirstLeads.trans hnode),
      h.unanswered_unique hmessageRouted hbrokerLeads hfound hsecond hkeptSecond
        (hsecondLeads.trans hnode)]
  · intro partition hold hnew
    obtain ⟨data, hdata, rfl⟩ := List.mem_map.mp hnew
    obtain ⟨⟨broker, hbroker, hkept, hleader⟩, ⟨message, hmessage, hpartition⟩, -⟩ :=
      h.mem_carried.mp hdata
    rw [← hpartition] at hleader hold
    have hmessageRouted := hrouted.message h hmessage
    obtain ⟨found, hfoundLeads, hfound, -⟩ := h.exists_leader hmessage hmessageRouted
    have hsame := h.unanswered_unique hmessageRouted hfoundLeads hfound hbroker hkept
      (Option.some.inj (hleader.symm.trans hfoundLeads))
    -- the broker of an acknowledged partition has an answer, and those with one are left out
    have hanswered := (hmessageRouted.2 _ hfoundLeads).1 found (by simp [hfound, Except.toOption])
    have hsome := hanswered.mpr hold
    simp [← hsame, hkept] at hsome

/-- A routed attempt sends every partition that was not acknowledged. -/
theorem routed_carried {recovery : Recovery}
    (hrouted : Routed partitionOf topicMessages state (.attempt view recovery))
    (h : AttemptPlan (pureConfig partitionOf topicMessages acks retries) view retryCount
      state.responsePerBroker planning requests) {topic : String} {message : μ}
    (hmessage : message ∈ messagesOf topicMessages topic) :
    partitionOf topic message ∈
      (carried topic (acknowledged state.history ++ requests)).map PartitionData.partition := by
  rw [carried_append, List.map_append, List.mem_append]
  have hmessageRouted := hrouted.message h hmessage
  obtain ⟨broker, hleader, hfound, hbroker⟩ := h.exists_leader hmessage hmessageRouted
  have hanswered := (hmessageRouted.2 _ hleader).1 broker (by simp [hfound, Except.toOption])
  cases hkept : kept state.responsePerBroker broker with
  | some answer => exact Or.inl (hanswered.mp (by simp [hkept]))
  | none =>
      refine Or.inr (List.mem_map.mpr ⟨⟨partitionOf topic message,
        messagesFor partitionOf topicMessages topic (partitionOf topic message)⟩, ?_, rfl⟩)
      exact h.mem_carried.mpr ⟨⟨broker, hbroker, hkept, hleader⟩, ⟨message, hmessage, rfl⟩, rfl⟩

end RoutedAttempt

/-- What holds along every run whose attempts are routed. -/
structure Delivering (partitionOf : String → μ → Int)
    (topicMessages : List (String × List μ)) (state : SendState μ Unit) : Prop where
  covered : Covered topicMessages state
  grouped : Grouped partitionOf topicMessages (outstanding state)

/-- Before its first attempt a call is delivering: it has sent nothing. -/
theorem delivering_initial : Delivering partitionOf topicMessages (SendState.initial ()) := by
  refine ⟨.of_failed trivial, ?_⟩
  intro topic
  simp [outstanding, SendState.initial, acknowledged]

/-- Every routed step keeps it. -/
theorem delivering_step {acks : Int} {retries : Nat} (hacks : acks ≠ 0)
    (state : SendState μ Unit) (event : SendEvent) (next : SendState μ Unit)
    (h : Delivering partitionOf topicMessages state)
    (hrouted : Routed partitionOf topicMessages state event)
    (hstep : step (pureConfig partitionOf topicMessages acks retries) state event = some next) :
    Delivering partitionOf topicMessages next := by
  have htransition := step_cases hacks hstep
  have hsent : ∀ view recovery retryCount planning requests, event = .attempt view recovery →
      createProducerRequests (pureConfig partitionOf topicMessages acks retries) view retryCount
        state.responsePerBroker state.partitioner = (planning, .ok requests) →
      state.inFlight = [] ∧
      Grouped partitionOf topicMessages (outstanding state ++ requests) ∧
      CarriesAll topicMessages (outstanding state ++ requests) ∧
      ∀ request ∈ requests, request.attempt = retryCount := by
    intro view recovery retryCount planning requests hevent hplan
    subst hevent
    have hattempt := createProducerRequests_ok (mergeTopicMessages_nodup _) hplan
    have houtstanding : outstanding state = acknowledged state.history := by
      simp [outstanding, hrouted.1]
    have hgrouped := routed_grouped (houtstanding ▸ h.grouped) hrouted hattempt
    rw [houtstanding]
    exact ⟨hrouted.1, hgrouped, hgrouped.carriesAll fun _ _ => routed_carried hrouted hattempt,
      hattempt.attempt_eq⟩
  refine ⟨covered_step h.covered htransition ?_, ?_⟩
  · intro view recovery retryCount planning requests hevent hplan
    obtain ⟨hempty, -, hall, hattempt⟩ := hsent _ _ _ _ _ hevent hplan
    exact ⟨hempty, hall, hattempt⟩
  · rcases outstanding_cases htransition with
      hsub | ⟨view, recovery, retryCount, planning, requests, hevent, hplan, hgrown⟩
    · exact h.grouped.of_subperm hsub
    · rw [hgrown]
      exact (hsent _ _ _ _ _ hevent hplan).2.1

end Pure

/-! ### Two brokers -/

/-- A cluster of the connected nodes 1 and 2 and one topic. -/
def twoBrokers (metadata : List PartitionMetadata) : ClusterView :=
  { topicMetadata := [("topic", metadata)]
    pool := fun nodeId => if nodeId = 1 then some 1 else if nodeId = 2 then some 2 else none
    connectError := fun _ => none }

/-- A broker that accepts every partition. -/
def acceptAll : String → Int → PartitionAnswer := fun _ _ => ⟨0, 0⟩

/-- An attempt of which the first broker accepts its request and the second loses its
connection, and the attempt after it. -/
def retryAfterLostConnection (first second : ClusterView) : List SendEvent :=
  [.attempt first ⟨true, none⟩, .answer 0 acceptAll ⟨true, none⟩,
    .fail 0 { name := .kafkaJSConnectionError, message := "Connection timeout" } ⟨true, none⟩,
    .attempt second ⟨true, none⟩]

/-- Two messages with explicit partitions 0 and 1. -/
def explicitMessages : List (String × List Int) := [("topic", [0, 1])]

end KafkaJs.Producer
