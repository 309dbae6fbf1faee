import KafkaJs.Producer.Routing

/-!
# The steps of a call, case by case

`step_cases` says once what an event of `sendMessages` can do to the state; the properties of
whole runs are proved from it. The predicates on histories that these properties are about are
defined here as well: which requests were acknowledged without error, and which messages they
carried.
-/

namespace KafkaJs.Producer

open Data Cluster

variable {μ σ : Type}

/-! ## Acknowledged requests -/

/-- Whether an answer reports success for every partition. -/
def Succeeded (entries : List ResponseEntry) : Prop := ∀ entry ∈ entries, entry.errorCode = 0

/-- `Succeeded` is decidable by going through the entries. -/
instance (entries : List ResponseEntry) : Decidable (Succeeded entries) :=
  inferInstanceAs (Decidable (∀ entry ∈ entries, _))

/-- The requests that were acknowledged without error, in the order of their answers. -/
def acknowledged (history : List (Happening μ)) : List (Request μ) :=
  history.filterMap fun happening =>
    match happening with
    | .produced _ => none
    | .answered request entries => if Succeeded entries then some request else none

/-- The partitions of a topic that the requests carry. -/
def carried (topic : String) (requests : List (Request μ)) : List (PartitionData μ) :=
  requests.flatMap fun request => partitionsFor topic request.topicData

/-- The messages of a topic in the requests. -/
def messagesIn (topic : String) (requests : List (Request μ)) : List μ :=
  (carried topic requests).flatMap PartitionData.messages

/-- Every message given for a topic is contained in exactly one acknowledged request, and the
acknowledged requests contain nothing else. Messages are counted with their multiplicity. -/
def ExactlyOnce (topicMessages : List (String × List μ)) (history : List (Happening μ)) : Prop :=
  ∀ topic, (messagesIn topic (acknowledged history)).Perm (messagesOf topicMessages topic)

/-- What is acknowledged in two histories, one after the other. -/
@[simp] theorem acknowledged_append (first second : List (Happening μ)) :
    acknowledged (first ++ second) = acknowledged first ++ acknowledged second :=
  List.filterMap_append

/-- Producing acknowledges nothing. -/
@[simp] theorem acknowledged_produced (requests : List (Request μ)) :
    acknowledged (requests.map .produced) = [] := by
  simp [acknowledged]

/-- An answer without error acknowledges its request. -/
theorem acknowledged_answered (request : Request μ) (entries : List ResponseEntry) :
    acknowledged [.answered request entries] = if Succeeded entries then [request] else [] := by
  by_cases h : Succeeded entries <;> simp [acknowledged, h]

/-- Without requests nothing is carried. -/
@[simp] theorem carried_nil (topic : String) : carried (μ := μ) topic [] = [] := rfl

/-- What requests carry, one after the other. -/
@[simp] theorem carried_append (topic : String) (first second : List (Request μ)) :
    carried topic (first ++ second) = carried topic first ++ carried topic second :=
  List.flatMap_append

/-- `parse` returns the response exactly when every partition succeeded. -/
theorem parseResponse_eq_ok {entries response : List ResponseEntry} :
    parseResponse entries = .ok response ↔ response = entries ∧ Succeeded entries := by
  unfold parseResponse
  cases hfind : entries.find? fun entry => failure entry.errorCode with
  | none =>
      have hsucceeded : Succeeded entries := by
        intro entry hmem
        simpa [failure] using List.find?_eq_none.mp hfind entry hmem
      simp [hsucceeded, eq_comm]
  | some entry =>
      have hfailed : ¬ Succeeded entries := by
        intro hsucceeded
        have hcode := List.find?_some hfind
        simp [failure, hsucceeded entry (List.mem_of_find?_eq_some hfind)] at hcode
      simp [hfailed]

/-! ## Topics -/

/-- A message of a topic is one of an entry of this topic. -/
theorem mem_messagesOf {topicMessages : List (String × List μ)} {topic : String} {message : μ} :
    message ∈ messagesOf topicMessages topic ↔
      ∃ entry ∈ topicMessages, entry.1 = topic ∧ message ∈ entry.2 := by
  simp only [messagesOf, List.mem_flatMap, List.mem_filter, decide_eq_true_eq, and_assoc]

/-- The messages of a listed topic, when the topics are distinct. -/
theorem messagesOf_of_mem {topicMessages : List (String × List μ)} {topic : String}
    {messages : List μ} (hnodup : (topicMessages.map Prod.fst).Nodup)
    (hmem : (topic, messages) ∈ topicMessages) : messagesOf topicMessages topic = messages := by
  have hget : (⟨topicMessages, hnodup⟩ : InsertionMap String (List μ)).get? topic =
      some messages := InsertionMap.mem_entries_iff.mp hmem
  have hfilter := InsertionMap.filter_entries_key ⟨topicMessages, hnodup⟩ topic
  rw [hget] at hfilter
  simp only at hfilter
  simp [messagesOf, hfilter]

/-- A topic without an entry has no messages. -/
theorem messagesOf_of_notMem {topicMessages : List (String × List μ)} {topic : String}
    (habsent : topic ∉ topicMessages.map Prod.fst) : messagesOf topicMessages topic = [] := by
  have hfilter : topicMessages.filter (fun entry => entry.1 = topic) = [] := by
    rw [List.filter_eq_nil_iff]
    intro entry hmem heq
    exact habsent (List.mem_map.mpr ⟨entry, hmem, by simpa using heq⟩)
  simp [messagesOf, hfilter]

/-- Merged topics are distinct. -/
theorem mergeTopicMessages_nodup (topicMessages : List (String × List μ)) :
    ((mergeTopicMessages topicMessages).map Prod.fst).Nodup :=
  InsertionMap.nodup _

/-- Merging keeps the messages of every topic, in order. -/
theorem messagesOf_mergeTopicMessages (topicMessages : List (String × List μ))
    (topic : String) :
    messagesOf (mergeTopicMessages topicMessages) topic = messagesOf topicMessages topic := by
  have hmerged : ∀ (given : List (String × List μ)) (merged : InsertionMap String (List μ)),
      ((given.foldl (fun merged (entry : String × List μ) =>
          merged.set entry.1 ((merged.get? entry.1).getD [] ++ entry.2)) merged).get?
          topic).getD [] =
        (merged.get? topic).getD [] ++ messagesOf given topic := by
    intro given
    induction given with
    | nil => simp [messagesOf]
    | cons entry given ih =>
        intro merged
        rw [List.foldl_cons, ih]
        by_cases h : entry.1 = topic
        · subst h
          simp [messagesOf]
        · simp [messagesOf, h, InsertionMap.get?_set_of_ne _ _ (Ne.symm h)]
  have hget := hmerged topicMessages InsertionMap.empty
  simp only [InsertionMap.get?_empty, Option.getD_none, List.nil_append] at hget
  rw [← hget, messagesOf, mergeTopicMessages, InsertionMap.filter_entries_key]
  generalize InsertionMap.get? _ topic = stored
  cases stored <;> simp

/-! ## Steps -/

/-- The phases an attempt that failed may lead to. -/
def Phase.Failed : Phase → Prop
  | .waiting _ | .rejected _ => True
  | .sending _ | .resolved _ => False

/-- An attempt that ends leaves the call waiting or rejected. -/
theorem retryOrReject_failed (retries retryCount : Nat) (ending : AttemptEnd) :
    (retryOrReject retries retryCount ending).Failed := by
  cases ending with
  | thrown error =>
      simp only [retryOrReject]
      split <;> trivial
  | bailed error => trivial

/-- What an event can do to the state of a call. -/
inductive Transition (config : SendConfig μ σ) (state : SendState μ σ) :
    SendEvent → SendState μ σ → Prop where
  /-- An attempt failed before it sent anything; brokers may have been reserved. -/
  | notSent {event next} (retryCount : Nat) :
      state.phase = .waiting retryCount →
      (∀ broker, kept next.responsePerBroker broker = kept state.responsePerBroker broker) →
      (∀ broker ∈ next.responsePerBroker.keys, broker ∈ state.responsePerBroker.keys ∨
        ∃ view recovery nodeId, event = .attempt view recovery ∧
          findBroker view nodeId = .ok broker) →
      next.phase.Failed → next.inFlight = state.inFlight → next.history = state.history →
      Transition config state event next
  /-- An attempt sent its requests. -/
  | sent {view recovery} (retryCount : Nat) (planning : Planning μ σ)
      (requests : List (Request μ)) :
      state.phase = .waiting retryCount →
      createProducerRequests config view retryCount state.responsePerBroker state.partitioner =
        (planning, .ok requests) →
      Transition config state (.attempt view recovery) (resolveIfDone
        { responsePerBroker := planning.responsePerBroker
          partitioner := planning.partitioner
          phase := .sending retryCount
          inFlight := state.inFlight ++ requests
          history := state.history ++ requests.map .produced })
  /-- A request was answered without error. -/
  | succeeded {index answer recovery} (request : Request μ) :
      state.inFlight[index]? = some request →
      Succeeded (responseEntries request.topicData answer) →
      Transition config state (.answer index answer recovery) (resolveIfDone { state with
        responsePerBroker := state.responsePerBroker.set request.broker
          (some (responseEntries request.topicData answer))
        inFlight := state.inFlight.eraseIdx index
        history := state.history ++
          [.answered request (responseEntries request.topicData answer)] })
  /-- A request failed, with an error in its answer or without an answer. -/
  | failed {event next} (index : Nat) (request : Request μ) :
      state.inFlight[index]? = some request →
      next.inFlight = state.inFlight.eraseIdx index →
      (next.responsePerBroker = state.responsePerBroker.delete request.broker ∨
        next.responsePerBroker = state.responsePerBroker) →
      (next.history = state.history ∨ ∃ answer recovery, event = .answer index answer recovery ∧
        ¬ Succeeded (responseEntries request.topicData answer) ∧
        next.history = state.history ++
          [.answered request (responseEntries request.topicData answer)]) →
      ((∀ retryCount, state.phase = .sending retryCount → request.attempt ≠ retryCount) ∧
          next.phase = state.phase ∨ next.phase.Failed) →
      Transition config state event next

/-- Planning one topic keeps every answer, also when it fails. -/
theorem reserveBrokers_kept (view : ClusterView) (nodeIds : List Int)
    (responses : ResponsePerBroker) :
    (∀ broker, kept (reserveBrokers view nodeIds responses).1 broker = kept responses broker) ∧
    ∀ broker ∈ (reserveBrokers view nodeIds responses).1.keys, broker ∈ responses.keys ∨
      ∃ nodeId, findBroker view nodeId = .ok broker := by
  induction nodeIds generalizing responses with
  | nil => simp +contextual [reserveBrokers]
  | cons nodeId nodeIds ih =>
      simp only [reserveBrokers]
      cases hfind : findBroker view nodeId with
      | error error => simp +contextual
      | ok found =>
          obtain ⟨hkept, hkeys⟩ := ih (if responses.has found then responses
            else responses.set found none)
          refine ⟨fun broker => (hkept broker).trans (kept_reserve _ _ _), ?_⟩
          intro broker hmem
          rcases hkeys broker hmem with hmem | hother
          · rcases mem_keys_reserve.mp hmem with hmem | rfl
            · exact Or.inl hmem
            · exact Or.inr ⟨nodeId, hfind⟩
          · exact Or.inr hother

/-- Planning a topic keeps the answers. -/
theorem planTopic_kept (config : SendConfig μ σ) (view : ClusterView) (planning : Planning μ σ)
    (topic : String) (messages : List μ) :
    let next := (planTopic config view planning topic messages).1
    (∀ broker, kept next.responsePerBroker broker = kept planning.responsePerBroker broker) ∧
    ∀ broker ∈ next.responsePerBroker.keys, broker ∈ planning.responsePerBroker.keys ∨
      ∃ nodeId, findBroker view nodeId = .ok broker := by
  simp only [planTopic]
  split
  · simp +contextual
  · split
    · simp +contextual
    · exact reserveBrokers_kept view _ _

/-- Planning all topics keeps the answers. -/
theorem planTopics_kept (config : SendConfig μ σ) (view : ClusterView)
    (topics : List (String × List μ)) (planning : Planning μ σ) :
    let final := (planTopics config view planning topics).1
    (∀ broker, kept final.responsePerBroker broker = kept planning.responsePerBroker broker) ∧
    ∀ broker ∈ final.responsePerBroker.keys, broker ∈ planning.responsePerBroker.keys ∨
      ∃ nodeId, findBroker view nodeId = .ok broker := by
  induction topics generalizing planning with
  | nil => simp +contextual [planTopics]
  | cons entry topics ih =>
      obtain ⟨topic, messages⟩ := entry
      have hfirst := planTopic_kept config view planning topic messages
      simp only [planTopics] at ih ⊢
      generalize planTopic config view planning topic messages = planned at hfirst ⊢
      obtain ⟨next, failed⟩ := planned
      cases failed with
      | some error => exact hfirst
      | none =>
          obtain ⟨hkept, hkeys⟩ := ih next
          refine ⟨fun broker => (hkept broker).trans (hfirst.1 broker), ?_⟩
          intro broker hmem
          rcases hkeys broker hmem with hmem | hother
          · exact hfirst.2 broker hmem
          · exact Or.inr hother

/-- An attempt that is not planned to the end leaves what planning its topics left. -/
theorem createProducerRequests_error {config : SendConfig μ σ} {view : ClusterView}
    {attempt : Nat} {responses : ResponsePerBroker} {partitioner : σ}
    {planning : Planning μ σ} {error : KafkaError}
    (h : createProducerRequests config view attempt responses partitioner =
      (planning, .error error)) :
    planning =
      (planTopics config view ⟨InsertionMap.empty, responses, partitioner⟩
        config.topicMessages).1 := by
  unfold createProducerRequests at h
  split at h
  · next final failed heq =>
      simp only [Prod.mk.injEq] at h
      rw [heq, h.1]
  · simp at h

/-- The phase after a request failed. -/
theorem attemptOfRequestFails_phase (config : SendConfig μ σ) (state : SendState μ σ)
    (request : Request μ) (error : KafkaError) (recovery : Recovery) :
    (∀ retryCount, state.phase = .sending retryCount → request.attempt ≠ retryCount) ∧
        (attemptOfRequestFails config state request error recovery).phase = state.phase ∨
      (attemptOfRequestFails config state request error recovery).phase.Failed := by
  simp only [attemptOfRequestFails]
  cases hphase : state.phase with
  | sending retryCount =>
      by_cases hcurrent : request.attempt = retryCount
      · exact Or.inr (by simpa [hcurrent] using retryOrReject_failed _ _ _)
      · exact Or.inl ⟨by simp [hcurrent], by simp [hcurrent]⟩
  | waiting retryCount => exact Or.inr trivial
  | resolved result => exact Or.inl ⟨by simp, by simp⟩
  | rejected error => exact Or.inr trivial

/-- Every step of a call that expects acknowledgements is one of the transitions. -/
theorem step_cases {config : SendConfig μ σ} (hacks : config.acks ≠ 0)
    {state next : SendState μ σ} {event : SendEvent}
    (h : step config state event = some next) : Transition config state event next := by
  cases event with
  | attemptFails error recovery =>
      simp only [step] at h
      cases hphase : state.phase with
      | waiting retryCount =>
          simp only [hphase, Option.some.injEq] at h
          subst h
          exact .notSent retryCount hphase (fun _ => rfl) (fun _ hmem => Or.inl hmem)
            (retryOrReject_failed _ _ _) rfl rfl
      | sending _ => simp [hphase] at h
      | resolved _ => simp [hphase] at h
      | rejected _ => simp [hphase] at h
  | attempt view recovery =>
      simp only [step] at h
      cases hphase : state.phase with
      | waiting retryCount =>
          simp only [hphase] at h
          cases hplan : createProducerRequests config view retryCount state.responsePerBroker
              state.partitioner with
          | mk planning outcome =>
              cases outcome with
              | error error =>
                  simp only [hplan, Option.some.injEq] at h
                  subst h
                  have hkept := planTopics_kept config view config.topicMessages
                    ⟨InsertionMap.empty, state.responsePerBroker, state.partitioner⟩
                  rw [← createProducerRequests_error hplan] at hkept
                  refine .notSent retryCount hphase hkept.1 ?_ (retryOrReject_failed _ _ _)
                    rfl rfl
                  intro broker hmem
                  rcases hkept.2 broker hmem with hmem | ⟨nodeId, hfind⟩
                  · exact Or.inl hmem
                  · exact Or.inr ⟨view, recovery, nodeId, rfl, hfind⟩
              | ok requests =>
                  simp only [hplan, Option.some.injEq] at h
                  subst h
                  exact .sent retryCount planning requests hphase hplan
      | sending _ => simp [hphase] at h
      | resolved _ => simp [hphase] at h
      | rejected _ => simp [hphase] at h
  | answer index answer recovery =>
      simp only [step, hacks, if_false] at h
      cases hrequest : state.inFlight[index]? with
      | none => simp [hrequest] at h
      | some request =>
          simp only [hrequest] at h
          cases hparse : parseResponse (responseEntries request.topicData answer) with
          | error error =>
              simp only [hparse, Option.some.injEq] at h
              subst h
              have hfailed : ¬ Succeeded (responseEntries request.topicData answer) := by
                intro hsucceeded
                rw [parseResponse_eq_ok.mpr ⟨rfl, hsucceeded⟩] at hparse
                cases hparse
              exact .failed index request hrequest rfl (Or.inl rfl)
                (Or.inr ⟨answer, recovery, rfl, hfailed, rfl⟩)
                (attemptOfRequestFails_phase config _ request error recovery)
          | ok response =>
              obtain ⟨rfl, hsucceeded⟩ := parseResponse_eq_ok.mp hparse
              simp only [hparse, Option.some.injEq] at h
              subst h
              exact .succeeded request hrequest hsucceeded
  | fail index error recovery =>
      simp only [step] at h
      cases hrequest : state.inFlight[index]? with
      | none => simp [hrequest] at h
      | some request =>
          simp only [hrequest, Option.some.injEq] at h
          subst h
          exact .failed index request hrequest rfl (Or.inl rfl) (Or.inl rfl)
            (attemptOfRequestFails_phase config _ request error recovery)
  | lockFails index error recovery =>
      simp only [step] at h
      cases hrequest : state.inFlight[index]? with
      | none => simp [hrequest] at h
      | some request =>
          simp only [hrequest, Option.some.injEq] at h
          subst h
          exact .failed index request hrequest rfl (Or.inr rfl) (Or.inl rfl)
            (attemptOfRequestFails_phase config _ request error recovery)

end KafkaJs.Producer
