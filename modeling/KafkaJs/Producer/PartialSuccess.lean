import KafkaJs.Producer.FixedMetadata

/-!
# What is kept of a broker's answer

`sendMessages` remembers answers per broker, and `parse` throws as soon as one partition of a
response failed. So an answer is kept as a whole or not at all: after a response that reports
success for every partition of the request, none of these partitions is produced again, while
the successful partitions of a mixed response are produced again with the failed ones. When the
call resolves, the returned list has one entry for every partition that received messages.
-/

namespace KafkaJs.Producer

open Data Cluster Execution

variable {μ : Type}

/-- The topic and partition of every group of a request. -/
def pairs (topicData : List (TopicData μ)) : List (String × Int) :=
  topicData.flatMap fun data => data.partitions.map fun entry => (data.topic, entry.partition)

/-- The topic and partition an entry of a response is about. -/
def ResponseEntry.pair (entry : ResponseEntry) : String × Int :=
  (entry.topicName, entry.partition)

/-- An earlier answer without error and a later request have no partition in common. -/
def KeepsAnswer : Happening μ → Happening μ → Prop
  | .answered request entries, .produced later =>
      Succeeded entries → ∀ pair ∈ pairs request.topicData, pair ∉ pairs later.topicData
  | _, _ => True

/-- A partition that an earlier answer reported as written is not in a later request, whatever
the answer reported for other partitions. -/
def KeepsPartition : Happening μ → Happening μ → Prop
  | .answered _ entries, .produced later =>
      ∀ entry ∈ entries, entry.errorCode = 0 → entry.pair ∉ pairs later.topicData
  | _, _ => True

/-- A response has one entry for each partition of the request, in order. -/
theorem responseEntries_pairs (topicData : List (TopicData μ))
    (answer : String → Int → PartitionAnswer) :
    (responseEntries topicData answer).map ResponseEntry.pair = pairs topicData := by
  simp [responseEntries, pairs, List.map_flatMap, ResponseEntry.pair, Function.comp_def]

/-- The pairs of a request are the partitions listed under each topic. -/
theorem mem_pairs {topicData : List (TopicData μ)} {topic : String} {partition : Int} :
    (topic, partition) ∈ pairs topicData ↔
      ∃ data ∈ partitionsFor topic topicData, data.partition = partition := by
  simp only [pairs, partitionsFor, List.mem_flatMap, List.mem_map, List.mem_filter,
    Prod.mk.injEq, decide_eq_true_eq]
  constructor
  · rintro ⟨data, hdata, entry, hentry, rfl, rfl⟩
    exact ⟨entry, ⟨data, ⟨hdata, rfl⟩, hentry⟩, rfl⟩
  · rintro ⟨entry, ⟨data, ⟨hdata, rfl⟩, hentry⟩, rfl⟩
    exact ⟨data, hdata, entry, hentry, rfl, rfl⟩

/-- A request names no partition of a topic twice if the plan of every topic lists the
partitions of a leader once. -/
theorem pairs_topicDataForBroker_nodup (topicMetadata : InsertionMap String (TopicPlan μ))
    (broker : Broker)
    (hplans : ∀ topic plan, topicMetadata.get? topic = some plan →
      ((plan.partitionsPerLeader.get? broker.nodeId).getD []).Nodup) :
    (pairs (topicDataForBroker topicMetadata broker)).Nodup := by
  have hentries : ∀ entry ∈ topicMetadata.entries,
      ((entry.2.partitionsPerLeader.get? broker.nodeId).getD []).Nodup := fun entry hmem =>
    hplans entry.1 entry.2 (InsertionMap.mem_entries_iff.mp hmem)
  have hnodup := topicMetadata.nodup
  unfold topicDataForBroker
  generalize topicMetadata.entries = entries at hentries hnodup
  induction entries with
  | nil => exact List.nodup_nil
  | cons entry entries ih =>
      simp only [List.map_cons, List.nodup_cons] at hnodup
      have hrest := ih (fun other hmem => hentries other (List.mem_cons_of_mem _ hmem)) hnodup.2
      cases hled : entry.2.partitionsPerLeader.get? broker.nodeId with
      | none => simpa [List.filterMap_cons, hled] using hrest
      | some partitions =>
          have hpartitions : partitions.Nodup := by
            simpa [hled] using hentries entry List.mem_cons_self
          simp only [List.filterMap_cons, hled, Option.map_some, pairs, List.flatMap_cons]
          refine List.Nodup.append ?_ hrest ?_
          · simp only [createTopicData, List.map_map, Function.comp_def]
            exact hpartitions.map fun first second heq => (Prod.mk.inj heq).2
          · intro pair hfirst hsecond
            obtain ⟨_, -, rfl⟩ := List.mem_map.mp hfirst
            obtain ⟨data, hdata, hmem⟩ := List.mem_flatMap.mp hsecond
            obtain ⟨other, hother, hcreate⟩ := List.mem_filterMap.mp hdata
            obtain ⟨_, -, rfl⟩ := Option.map_eq_some_iff.mp hcreate
            obtain ⟨_, -, heq⟩ := List.mem_map.mp hmem
            exact hnodup.1 (List.mem_map.mpr ⟨other, hother, (Prod.mk.inj heq).1⟩)

/-! ## Requests while the cluster does not change -/

section

variable (partitionOf : String → μ → Int) (topicMessages : List (String × List μ))
  (cluster : ClusterView)

/-- A partition that receives messages of the call. -/
def Targeted (topic : String) (partition : Int) : Prop :=
  ∃ message ∈ messagesOf topicMessages topic, partitionOf topic message = partition

/-- A partition that receives messages of the call and is led by a node. -/
def Led (topic : String) (partition nodeId : Int) : Prop :=
  leaderOf (findTopicPartitionMetadata cluster topic) partition = some nodeId ∧
    Targeted partitionOf topicMessages topic partition

/-- What holds along every run in which the cluster does not change. -/
structure Accurate (state : SendState μ Unit) : Prop where
  steady : Steady cluster.pool state
  delivering : Delivering partitionOf topicMessages state
  /-- A request names the partitions that its broker leads, each once. -/
  led : ∀ request ∈ outstanding state, (pairs request.topicData).Nodup ∧
    ∀ topic partition, (topic, partition) ∈ pairs request.topicData ↔
      Led partitionOf topicMessages cluster topic partition request.broker.nodeId
  apart : state.history.Pairwise KeepsAnswer
  /-- Once the requests of an attempt are sent, every broker of the response map answered or is
  awaited, and the map holds the leaders of all targeted partitions. -/
  complete : ¬ state.phase.Failed →
    (∀ broker ∈ state.responsePerBroker.keys, (kept state.responsePerBroker broker).isSome ∨
      ∃ request ∈ state.inFlight, request.broker = broker) ∧
    ∀ topic partition, Targeted partitionOf topicMessages topic partition →
      ∃ broker ∈ state.responsePerBroker.keys,
        Led partitionOf topicMessages cluster topic partition broker.nodeId
  result : ∀ result, state.phase = .resolved result →
    result = flatResponses state.responsePerBroker

variable {partitionOf topicMessages cluster}

/-- The broker of an acknowledged request is pooled. -/
theorem Steady.pooled_of_acknowledged {σ : Type} {pool : Int → Option Nat}
    {state : SendState μ σ} (h : Steady pool state) {request : Request μ}
    (hmem : request ∈ acknowledged state.history) :
    pool request.broker.nodeId = some request.broker.handle := by
  obtain ⟨answer, -, hkept⟩ := h.answered request hmem
  exact h.pooled _ (mem_keys_of_kept (by simp [hkept]))

/-- A steady cluster routes every message. -/
theorem Accurate.routed {state : SendState μ Unit}
    (h : Accurate partitionOf topicMessages cluster state)
    (hentries : ∀ entry ∈ topicMessages, ∀ message ∈ entry.2,
      partitionEntry (findTopicPartitionMetadata cluster entry.1)
        (partitionOf entry.1 message) ≠ none)
    {event : SendEvent} (hsame : SameCluster cluster state event) :
    Routed partitionOf topicMessages state event := by
  cases event with
  | attempt view recovery =>
      obtain ⟨hmetadata, hpool, hempty⟩ := hsame
      have hview : findTopicPartitionMetadata view = findTopicPartitionMetadata cluster := by
        funext topic
        simp only [findTopicPartitionMetadata, hmetadata]
      refine ⟨hempty, ?_⟩
      intro entry hentry _ message hmessage
      refine ⟨by rw [hview]; exact hentries entry hentry message hmessage, ?_⟩
      intro leader hleader
      rw [Option.mem_def, hview] at hleader
      -- the leader of a targeted partition is recorded exactly if that partition was acknowledged
      have htargeted : Targeted partitionOf topicMessages entry.1
          (partitionOf entry.1 message) :=
        ⟨message, mem_messagesOf.mpr ⟨entry, hentry, rfl, hmessage⟩, rfl⟩
      have houtstanding : ∀ request ∈ acknowledged state.history,
          request ∈ outstanding state := fun request hmem => List.mem_append_left _ hmem
      refine ⟨?_, ?_⟩
      · intro broker hbroker
        have hfound : findBroker view leader = .ok broker := by
          cases hfind : findBroker view leader with
          | error error => simp [hfind, Except.toOption] at hbroker
          | ok found => simpa [hfind, Except.toOption] using hbroker
        obtain ⟨rfl, hhandle⟩ := findBroker_ok hfound
        rw [hpool] at hhandle
        constructor
        · intro hsome
          obtain ⟨request, hacknowledged, hrequest⟩ := h.steady.acknowledging broker hsome
          obtain ⟨data, hdata, hpartition⟩ := mem_pairs.mp
            (((h.led request (houtstanding _ hacknowledged)).2 entry.1 _).mpr
              ⟨hrequest ▸ hleader, htargeted⟩)
          exact List.mem_map.mpr
            ⟨data, List.mem_flatMap.mpr ⟨request, hacknowledged, hdata⟩, hpartition⟩
        · intro hcarried
          obtain ⟨data, hdata, hpartition⟩ := List.mem_map.mp hcarried
          obtain ⟨request, hacknowledged, hrequest⟩ := List.mem_flatMap.mp hdata
          have hled := ((h.led request (houtstanding _ hacknowledged)).2 entry.1 _).mp
            (mem_pairs.mpr ⟨data, hrequest, hpartition⟩)
          have hbrokers : request.broker = broker :=
            eq_of_pooled (h.steady.pooled_of_acknowledged hacknowledged) hhandle
              (Option.some.inj (hled.1.symm.trans hleader))
          obtain ⟨answer, -, hkept⟩ := h.steady.answered request hacknowledged
          simp [← hbrokers, hkept]
      · intro broker hbroker hnode _
        rw [hpool, ← hnode]
        exact h.steady.pooled broker hbroker
  | attemptFails _ _ => trivial
  | answer _ _ _ => trivial
  | fail _ _ _ => trivial
  | lockFails _ _ _ => trivial

/-- What the requests of an attempt name. -/
theorem AttemptPlan.led {acks : Int} {retries : Nat} {view : ClusterView} {attempt : Nat}
    {responses : ResponsePerBroker} {planning : Planning μ Unit} {requests : List (Request μ)}
    (h : AttemptPlan (pureConfig partitionOf topicMessages acks retries) view attempt responses
      planning requests) {request : Request μ} (hmem : request ∈ requests) :
    (pairs request.topicData).Nodup ∧
    ∀ topic partition, (topic, partition) ∈ pairs request.topicData ↔
      Led partitionOf topicMessages view topic partition request.broker.nodeId := by
  rw [h.requests_eq] at hmem
  obtain ⟨broker, -, rfl⟩ := List.mem_map.mp hmem
  refine ⟨pairs_topicDataForBroker_nodup _ _ ?_, ?_⟩
  · intro topic plan hget
    rcases h.plan_cases topic with ⟨_, _, other, _, hplanned, hother⟩ | ⟨hnone, -⟩
    · cases hget.symm.trans hother
      rw [planned_leaders hplanned]
      exact (propertyKeys_nodup (InsertionMap.keys_nodup _)).filter _
    · cases hnone.symm.trans hget
  · intro topic partition
    rw [mem_pairs]
    constructor
    · rintro ⟨data, hdata, rfl⟩
      obtain ⟨hleader, htargeted, -⟩ := h.mem_partitionsFor.mp hdata
      exact ⟨hleader, htargeted⟩
    · rintro ⟨hleader, htargeted⟩
      exact ⟨⟨partition, messagesFor partitionOf topicMessages topic partition⟩,
        h.mem_partitionsFor.mpr ⟨hleader, htargeted, rfl⟩, rfl⟩

/-- Another request than the one that is taken out stays. -/
theorem mem_eraseIdx_of_ne {requests : List (Request μ)} {index : Nat} {request other : Request μ}
    (hrequest : requests[index]? = some request) (hother : other ∈ requests) (hne : other ≠ request) :
    other ∈ requests.eraseIdx index := by
  obtain ⟨hindex, hget⟩ := List.getElem?_eq_some_iff.mp hrequest
  have hmem := (List.getElem_cons_eraseIdx_perm hindex).mem_iff.mpr hother
  rw [hget] at hmem
  exact (List.mem_cons.mp hmem).resolve_left hne

/-- Resolving the call decides nothing about its failure. -/
@[simp] theorem resolveIfDone_failed {σ : Type} (state : SendState μ σ) :
    (resolveIfDone state).phase.Failed ↔ state.phase.Failed := by
  cases hphase : state.phase with
  | sending retryCount =>
      simp only [resolveIfDone, hphase]
      split
      · rw [hphase]
      · rfl
  | waiting _ => simp [resolveIfDone, hphase]
  | resolved _ => simp [resolveIfDone, hphase]
  | rejected _ => simp [resolveIfDone, hphase]

/-- The result of a call is made of the answers it has when it resolves. -/
theorem resolveIfDone_result {σ : Type} {state : SendState μ σ}
    (h : ∀ result, state.phase = .resolved result →
      result = flatResponses state.responsePerBroker) :
    ∀ result, (resolveIfDone state).phase = .resolved result →
      result = flatResponses state.responsePerBroker := by
  intro result hresolved
  cases hphase : state.phase with
  | sending retryCount =>
      simp only [resolveIfDone, hphase] at hresolved
      split at hresolved
      · simp [hphase] at hresolved
      · simpa using hresolved.symm
  | waiting _ => simp [resolveIfDone, hphase] at hresolved
  | resolved other => exact h result (by simpa [resolveIfDone, hphase] using hresolved)
  | rejected _ => simp [resolveIfDone, hphase] at hresolved

/-- A resolved call does not move. -/
theorem Covered.result_step {σ : Type} {config : SendConfig μ σ} {state next : SendState μ σ}
    {event : SendEvent} (h : Covered topicMessages state)
    (htransition : Transition config state event next) :
    ∀ result, next.phase = .resolved result →
      result = flatResponses next.responsePerBroker := by
  cases htransition with
  | notSent _ _ _ _ hfailed _ _ =>
      intro result hphase
      simp [hphase, Phase.Failed] at hfailed
  | sent retryCount planning requests _ _ =>
      rw [resolveIfDone_responsePerBroker]
      exact resolveIfDone_result (by simp)
  | succeeded request hrequest _ =>
      rw [resolveIfDone_responsePerBroker]
      refine resolveIfDone_result fun result hphase => ?_
      simp [(h.resolved result hphase).1] at hrequest
  | failed index request hrequest _ _ _ hphases =>
      intro result hphase
      rcases hphases with ⟨-, hsame⟩ | hfailed
      · rw [hsame] at hphase
        simp [(h.resolved result hphase).1] at hrequest
      · simp [hphase, Phase.Failed] at hfailed

/-- A call that has sent nothing has nothing to be accurate about. -/
theorem accurate_initial :
    Accurate partitionOf topicMessages cluster (SendState.initial ()) := by
  refine ⟨steady_initial _ _, delivering_initial, ?_, ?_, ?_, ?_⟩
  · simp [outstanding, SendState.initial, acknowledged]
  · exact List.Pairwise.nil
  · intro hactive
    exact absurd trivial hactive
  · simp [SendState.initial]

/-- Every step keeps the requests apart. -/
theorem Accurate.apart_step {acks : Int} {retries : Nat} {state next : SendState μ Unit}
    {event : SendEvent} (h : Accurate partitionOf topicMessages cluster state)
    (hsame : SameCluster cluster state event)
    (htransition : Transition (pureConfig partitionOf topicMessages acks retries) state event
      next) : next.history.Pairwise KeepsAnswer := by
  have hanswer : ∀ happening : Happening μ, (∀ request, happening ≠ .produced request) →
      (state.history ++ [happening]).Pairwise KeepsAnswer := by
    intro happening hother
    refine List.pairwise_append.mpr ⟨h.apart, List.pairwise_singleton _ _, ?_⟩
    intro earlier _ later hmem
    rw [List.mem_singleton.mp hmem]
    cases happening with
    | produced request => exact absurd rfl (hother request)
    | answered request entries => cases earlier <;> trivial
  cases htransition with
  | notSent _ _ _ _ _ _ hhistory =>
      rw [hhistory]
      exact h.apart
  | @sent view recovery retryCount planning requests _ hplan =>
      obtain ⟨hmetadata, hpool, hempty⟩ := hsame
      have hattempt := createProducerRequests_ok (mergeTopicMessages_nodup _) hplan
      rw [resolveIfDone_history]
      refine List.pairwise_append.mpr ⟨h.apart, ?_, ?_⟩
      · rw [List.pairwise_map]
        exact List.pairwise_of_forall fun _ _ => trivial
      · intro earlier hearlier later hlater
        obtain ⟨request, hrequest, rfl⟩ := List.mem_map.mp hlater
        cases earlier with
        | produced _ => trivial
        | answered old entries =>
            -- a pair acknowledged before leads to the broker of the new request, whose answer is
            -- still kept
            intro hsucceeded pair hold hnew
            have hacknowledged : old ∈ acknowledged state.history :=
              List.mem_filterMap.mpr ⟨_, hearlier, if_pos hsucceeded⟩
            have hsent := h.steady.sent hempty hpool hattempt
            obtain ⟨hpooled, hkept⟩ := hsent.waiting request (List.mem_append_right _ hrequest)
            obtain ⟨topic, partition⟩ := pair
            have holdLed := ((h.led old (List.mem_append_left _ hacknowledged)).2 _ _).mp hold
            have hnewLed := ((hattempt.led hrequest).2 _ _).mp hnew
            rw [Led, findTopicPartitionMetadata, hmetadata] at hnewLed
            have hbrokers := eq_of_pooled (h.steady.pooled_of_acknowledged hacknowledged)
              hpooled (Option.some.inj (holdLed.1.symm.trans hnewLed.1))
            obtain ⟨answer, -, hanswered⟩ := h.steady.answered old hacknowledged
            rw [← hbrokers, hattempt.kept_eq, hanswered] at hkept
            cases hkept
  | succeeded request _ _ =>
      rw [resolveIfDone_history]
      exact hanswer _ (by simp)
  | failed index request _ _ _ hhistory _ =>
      rcases hhistory with hsameHistory | ⟨answer, recovery, -, -, hanswered⟩
      · rw [hsameHistory]
        exact h.apart
      · rw [hanswered]
        exact hanswer _ (by simp)

/-- Every step keeps the places in the response map. -/
theorem Accurate.complete_step {acks : Int} {retries : Nat} {state next : SendState μ Unit}
    {event : SendEvent} (h : Accurate partitionOf topicMessages cluster state)
    (hsame : SameCluster cluster state event)
    (hrouted : Routed partitionOf topicMessages state event)
    (htransition : Transition (pureConfig partitionOf topicMessages acks retries) state event
      next) (hactive : ¬ next.phase.Failed) :
    (∀ broker ∈ next.responsePerBroker.keys, (kept next.responsePerBroker broker).isSome ∨
      ∃ request ∈ next.inFlight, request.broker = broker) ∧
    ∀ topic partition, Targeted partitionOf topicMessages topic partition →
      ∃ broker ∈ next.responsePerBroker.keys,
        Led partitionOf topicMessages cluster topic partition broker.nodeId := by
  cases htransition with
  | notSent _ _ _ _ hfailed _ _ => exact absurd hfailed hactive
  | @sent view recovery retryCount planning requests _ hplan =>
      have hattempt := createProducerRequests_ok (mergeTopicMessages_nodup _) hplan
      simp only [resolveIfDone_responsePerBroker, resolveIfDone_inFlight]
      refine ⟨?_, ?_⟩
      · intro broker hbroker
        cases hkept : kept planning.responsePerBroker broker with
        | some entries => exact Or.inl rfl
        | none =>
            refine Or.inr ⟨⟨retryCount, broker,
              topicDataForBroker planning.topicMetadata broker⟩, ?_, rfl⟩
            refine List.mem_append_right _ ?_
            rw [hattempt.requests_eq]
            exact List.mem_map.mpr
              ⟨broker, mem_brokersWithoutResponse.mpr ⟨hbroker, hkept⟩, rfl⟩
      · rintro topic partition ⟨message, hmessage, rfl⟩
        obtain ⟨broker, hleader, -, hbroker⟩ :=
          hattempt.exists_leader hmessage (hrouted.message hattempt hmessage)
        rw [findTopicPartitionMetadata, hsame.1] at hleader
        exact ⟨broker, hbroker, hleader, message, hmessage, rfl⟩
  | succeeded request hrequest _ =>
      rw [resolveIfDone_failed] at hactive
      obtain ⟨hplaces, hleaders⟩ := h.complete hactive
      simp only [resolveIfDone_responsePerBroker, resolveIfDone_inFlight]
      refine ⟨?_, ?_⟩
      · intro broker hbroker
        rw [kept_set]
        by_cases heq : broker = request.broker
        · exact Or.inl (by simp [heq])
        · rw [if_neg heq]
          have hold := (InsertionMap.mem_keys_set.mp hbroker).resolve_left heq
          rcases hplaces broker hold with hsome | ⟨other, hother, hbrokers⟩
          · exact Or.inl hsome
          · refine Or.inr ⟨other, mem_eraseIdx_of_ne hrequest hother ?_, hbrokers⟩
            rintro rfl
            exact heq hbrokers.symm
      · intro topic partition htargeted
        obtain ⟨broker, hbroker, hled⟩ := hleaders topic partition htargeted
        exact ⟨broker, InsertionMap.mem_keys_set.mpr (Or.inr hbroker), hled⟩
  | failed index request hrequest _ _ _ hphases =>
      -- a request in flight belongs to the attempt that is awaited, which fails with it
      have hmem := List.mem_of_getElem? hrequest
      rcases hphases with ⟨hother, hsamePhase⟩ | hfailed
      · cases hphase : state.phase with
        | sending retryCount =>
            exact absurd ((h.delivering.covered.sending retryCount hphase).1 request hmem)
              (hother retryCount hphase)
        | resolved result =>
            simp [(h.delivering.covered.resolved result hphase).1] at hmem
        | waiting _ => simp [hsamePhase, hphase, Phase.Failed] at hactive
        | rejected _ => simp [hsamePhase, hphase, Phase.Failed] at hactive
      · exact absurd hfailed hactive

/-- Every step keeps the form of the requests. -/
theorem Accurate.led_step {acks : Int} {retries : Nat} {state next : SendState μ Unit}
    {event : SendEvent} (h : Accurate partitionOf topicMessages cluster state)
    (hsame : SameCluster cluster state event)
    (htransition : Transition (pureConfig partitionOf topicMessages acks retries) state event
      next) :
    ∀ request ∈ outstanding next, (pairs request.topicData).Nodup ∧
      ∀ topic partition, (topic, partition) ∈ pairs request.topicData ↔
        Led partitionOf topicMessages cluster topic partition request.broker.nodeId := by
  intro request hmem
  rcases outstanding_cases htransition with
    hsub | ⟨view, recovery, retryCount, planning, requests, rfl, hplan, hgrown⟩
  · exact h.led request (hsub.subset hmem)
  · rw [hgrown] at hmem
    rcases List.mem_append.mp hmem with hold | hnew
    · exact h.led request hold
    · have hattempt := createProducerRequests_ok (mergeTopicMessages_nodup _) hplan
      obtain ⟨hnodup, hled⟩ := hattempt.led hnew
      refine ⟨hnodup, fun topic partition => ?_⟩
      rw [hled, Led, Led, findTopicPartitionMetadata, findTopicPartitionMetadata, hsame.1]

/-- Every step keeps the account accurate while the cluster does not change. -/
theorem accurate_step {acks : Int} {retries : Nat} (hacks : acks ≠ 0)
    (hentries : ∀ entry ∈ topicMessages, ∀ message ∈ entry.2,
      partitionEntry (findTopicPartitionMetadata cluster entry.1)
        (partitionOf entry.1 message) ≠ none)
    (state : SendState μ Unit) (event : SendEvent) (next : SendState μ Unit)
    (h : Accurate partitionOf topicMessages cluster state)
    (hsame : SameCluster cluster state event)
    (hstep : step (pureConfig partitionOf topicMessages acks retries) state event = some next) :
    Accurate partitionOf topicMessages cluster next := by
  have htransition := step_cases hacks hstep
  have hrouted := h.routed hentries hsame
  exact
    { steady := steady_step (mergeTopicMessages_nodup _) h.steady hsame htransition
      delivering := delivering_step hacks state event next h.delivering hrouted hstep
      led := h.led_step hsame htransition
      apart := h.apart_step hsame htransition
      complete := h.complete_step hsame hrouted htransition
      result := h.delivering.covered.result_step htransition }

/-! ## The returned list -/

/-- The entries of the kept answers. -/
def keptEntries (responses : ResponsePerBroker) : List ResponseEntry :=
  responses.keys.flatMap fun broker => (kept responses broker).getD []

/-- When every broker has its answer, the returned list has no `null`. -/
theorem flatResponses_eq {responses : ResponsePerBroker}
    (h : ∀ broker ∈ responses.keys, (kept responses broker).isSome) :
    flatResponses responses = (keptEntries responses).map some := by
  rw [flatResponses, InsertionMap.values, keptEntries, InsertionMap.keys, List.flatMap_map,
    List.flatMap_map, List.map_flatMap]
  refine List.flatMap_congr fun entry hmem => ?_
  obtain ⟨broker, response⟩ := entry
  have hget : responses.get? broker = some response := InsertionMap.mem_entries_iff.mp hmem
  have hsome := h broker (InsertionMap.mem_keys_iff.mpr ⟨response, hget⟩)
  cases response with
  | none => simp [kept, hget] at hsome
  | some entries => simp [kept, hget]

/-- A kept answer reports success for the partitions that its broker leads, each once. -/
theorem Accurate.kept_pairs {state : SendState μ Unit}
    (h : Accurate partitionOf topicMessages cluster state) {broker : Broker}
    (hsome : (kept state.responsePerBroker broker).isSome) :
    let entries := (kept state.responsePerBroker broker).getD []
    Succeeded entries ∧ (entries.map ResponseEntry.pair).Nodup ∧
    ∀ topic partition, (topic, partition) ∈ entries.map ResponseEntry.pair ↔
      Led partitionOf topicMessages cluster topic partition broker.nodeId := by
  obtain ⟨request, hacknowledged, rfl⟩ := h.steady.acknowledging broker hsome
  obtain ⟨answer, hsucceeded, hkept⟩ := h.steady.answered request hacknowledged
  obtain ⟨hnodup, hled⟩ := h.led request (List.mem_append_left _ hacknowledged)
  simp only [hkept, Option.getD_some, responseEntries_pairs]
  exact ⟨hsucceeded, hnodup, hled⟩

/-- The list returned by a resolved call. -/
theorem Accurate.resolved {state : SendState μ Unit}
    (h : Accurate partitionOf topicMessages cluster state)
    {result : List (Option ResponseEntry)} (hresolved : state.phase = .resolved result) :
    ∃ entries : List ResponseEntry, result = entries.map some ∧
      (entries.map ResponseEntry.pair).Nodup ∧
      (∀ topic partition, (topic, partition) ∈ entries.map ResponseEntry.pair ↔
        Targeted partitionOf topicMessages topic partition) ∧
      Succeeded entries := by
  have hempty := (h.delivering.covered.resolved result hresolved).1
  obtain ⟨hplaces, hleaders⟩ := h.complete (by simp [hresolved, Phase.Failed])
  have hanswered : ∀ broker ∈ state.responsePerBroker.keys,
      (kept state.responsePerBroker broker).isSome := by
    intro broker hbroker
    exact (hplaces broker hbroker).resolve_right (by simp [hempty])
  refine ⟨keptEntries state.responsePerBroker, ?_, ?_, ?_, ?_⟩
  · rw [h.result result hresolved, flatResponses_eq hanswered]
  · rw [keptEntries, List.map_flatMap]
    refine List.nodup_flatMap.mpr ⟨fun broker hbroker =>
      (h.kept_pairs (hanswered broker hbroker)).2.1, ?_⟩
    refine state.responsePerBroker.keys_nodup.pairwise_of_forall_ne ?_
    intro first hfirst second hsecond hne pair hinFirst hinSecond
    obtain ⟨topic, partition⟩ := pair
    have hledFirst := ((h.kept_pairs (hanswered first hfirst)).2.2 topic partition).mp hinFirst
    have hledSecond :=
      ((h.kept_pairs (hanswered second hsecond)).2.2 topic partition).mp hinSecond
    exact hne (eq_of_pooled (h.steady.pooled first hfirst) (h.steady.pooled second hsecond)
      (Option.some.inj (hledFirst.1.symm.trans hledSecond.1)))
  · intro topic partition
    rw [keptEntries, List.map_flatMap, List.mem_flatMap]
    constructor
    · rintro ⟨broker, hbroker, hmem⟩
      exact (((h.kept_pairs (hanswered broker hbroker)).2.2 topic partition).mp hmem).2
    · intro htargeted
      obtain ⟨broker, hbroker, hled⟩ := hleaders topic partition htargeted
      exact ⟨broker, hbroker,
        ((h.kept_pairs (hanswered broker hbroker)).2.2 topic partition).mpr hled⟩
  · intro entry hentry
    obtain ⟨broker, hbroker, hmem⟩ := List.mem_flatMap.mp hentry
    exact (h.kept_pairs (hanswered broker hbroker)).1 entry hmem

/-- While the cluster does not change, the partitions of a request that was answered without
error are in no later request, and a resolved call returns one entry without error for every
partition that received messages. -/
theorem sendMessages_keeps_answers (partitionOf : String → μ → Int)
    (topicMessages : List (String × List μ)) (acks : Int) (retries : Nat) (hacks : acks ≠ 0)
    (cluster : ClusterView)
    (hentries : ∀ entry ∈ topicMessages, ∀ message ∈ entry.2,
      partitionEntry (findTopicPartitionMetadata cluster entry.1)
        (partitionOf entry.1 message) ≠ none)
    (events : List SendEvent) (final : SendState μ Unit)
    (hrun : run (step (pureConfig partitionOf topicMessages acks retries))
      (SendState.initial ()) events = some final)
    (hsame : Meets (step (pureConfig partitionOf topicMessages acks retries))
      (SameCluster cluster) (SendState.initial ()) events) :
    final.history.Pairwise KeepsAnswer ∧
    ∀ result, final.phase = .resolved result →
      ∃ entries : List ResponseEntry, result = entries.map some ∧
        (entries.map ResponseEntry.pair).Nodup ∧
        (∀ topic partition, (topic, partition) ∈ entries.map ResponseEntry.pair ↔
          ∃ message ∈ messagesOf topicMessages topic, partitionOf topic message = partition) ∧
        ∀ entry ∈ entries, entry.errorCode = 0 := by
  have haccurate := invariant_of_meets (accurate_step hacks hentries) accurate_initial hsame hrun
  exact ⟨haccurate.apart, fun result hresolved => haccurate.resolved hresolved⟩

end

/-! ## A mixed answer -/

/-- A broker that accepts partition 0 and is not the leader of partition 1. -/
def acceptFirst : String → Int → PartitionAnswer :=
  fun _ partition => if partition = 0 then ⟨0, 0⟩ else ⟨6, -1⟩

/-- An attempt with a mixed answer, and the attempt after it. -/
def retryAfterMixedAnswer : List SendEvent :=
  [.attempt (twoBrokers [⟨0, some 1⟩, ⟨1, some 1⟩]) ⟨true, none⟩,
    .answer 0 acceptFirst ⟨true, none⟩,
    .attempt (twoBrokers [⟨0, some 1⟩, ⟨1, some 1⟩]) ⟨true, none⟩]

/-- A call that resolves after a mixed answer returns both partitions. -/
theorem sendMessages_keeps_answers_mixed :
    ∃ final result,
      run (step (pureConfig (fun _ message => message) explicitMessages (-1) 5))
        (SendState.initial ()) (retryAfterMixedAnswer ++ [.answer 0 acceptAll ⟨true, none⟩]) =
        some final ∧
      final.phase = .resolved result ∧
      ∃ entries : List ResponseEntry, result = entries.map some ∧
        (entries.map ResponseEntry.pair).Nodup ∧
        ∀ entry ∈ entries, entry.errorCode = 0 := by
  have hphase : (run (step (pureConfig (fun _ message => message) explicitMessages (-1) 5))
      (SendState.initial ())
      (retryAfterMixedAnswer ++ [.answer 0 acceptAll ⟨true, none⟩])).map SendState.phase =
      some (.resolved [some ⟨"topic", 0, 0, 0⟩, some ⟨"topic", 1, 0, 0⟩]) := by
    decide
  obtain ⟨final, hrun, hresolved⟩ := Option.map_eq_some_iff.mp hphase
  obtain ⟨-, hresult⟩ := sendMessages_keeps_answers _ _ _ _ (by decide)
    (twoBrokers [⟨0, some 1⟩, ⟨1, some 1⟩]) (by decide) _ _ hrun
    ⟨⟨rfl, rfl, rfl⟩, trivial, ⟨rfl, rfl, rfl⟩, trivial, trivial⟩
  obtain ⟨entries, heq, hnodup, -, hzero⟩ := hresult _ hresolved
  exact ⟨final, _, hrun, hresolved, entries, heq, hnodup, hzero⟩

/-- The partition that a mixed answer reported as written is produced again. -/
theorem sendMessages_discards_mixed_answer :
    ∃ final, run (step (pureConfig (fun _ message => message) explicitMessages (-1) 5))
        (SendState.initial ()) retryAfterMixedAnswer = some final ∧
      ¬ final.history.Pairwise KeepsPartition := by
  have hhistory : (run (step (pureConfig (fun _ message => message) explicitMessages (-1) 5))
      (SendState.initial ()) retryAfterMixedAnswer).map SendState.history =
      some [.produced ⟨0, ⟨1, 1⟩, [⟨"topic", [⟨0, [0]⟩, ⟨1, [1]⟩]⟩]⟩,
        .answered ⟨0, ⟨1, 1⟩, [⟨"topic", [⟨0, [0]⟩, ⟨1, [1]⟩]⟩]⟩
          [⟨"topic", 0, 0, 0⟩, ⟨"topic", 1, 6, -1⟩],
        .produced ⟨1, ⟨1, 1⟩, [⟨"topic", [⟨0, [0]⟩, ⟨1, [1]⟩]⟩]⟩] := by
    decide
  obtain ⟨final, hrun, heq⟩ := Option.map_eq_some_iff.mp hhistory
  refine ⟨final, hrun, ?_⟩
  rw [heq]
  intro hpairwise
  obtain ⟨-, hrest⟩ := List.pairwise_cons.mp hpairwise
  obtain ⟨hlater, -⟩ := List.pairwise_cons.mp hrest
  exact hlater _ (List.mem_singleton_self _) ⟨"topic", 0, 0, 0⟩ (by decide) rfl (by decide)

end KafkaJs.Producer
