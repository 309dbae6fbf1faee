import KafkaJs.Producer.PartialSuccess

/-!
# What a resolved call returns

For any partitioner, and whatever happens to the cluster: a call resolves when the last request of
an attempt is answered, and returns what the response map has then. Requests of earlier attempts may
still be in flight, and may have put answers into the map or taken some out of it. Still, every
answer in the map reported success to a request of the call, and no broker has a place in it without
an answer (`Accounts`).
-/

namespace KafkaJs.Producer

open Data Cluster Execution

variable {μ σ : Type}

/-- A request of the call was answered by these entries, all without error. -/
def Reported (history : List (Happening μ)) (entries : List ResponseEntry) : Prop :=
  Succeeded entries ∧ ∃ request, Happening.answered request entries ∈ history

/-- What holds in every run of a call. -/
structure Accounts (state : SendState μ σ) : Prop where
  /-- Requests in flight were produced. -/
  inFlight : ∀ request ∈ state.inFlight, .produced request ∈ state.history
  /-- Answers are to requests that were produced. -/
  answered : ∀ request entries, .answered request entries ∈ state.history →
    .produced request ∈ state.history
  /-- The answers in the response map were received. -/
  received : ∀ broker entries, kept state.responsePerBroker broker = some entries →
    Reported state.history entries
  /-- A broker without an answer is awaited by the current attempt. -/
  awaited : ∀ retryCount, state.phase = .sending retryCount →
    ∀ broker ∈ state.responsePerBroker.keys, kept state.responsePerBroker broker = none →
      ∃ request ∈ state.inFlight, request.attempt = retryCount ∧ request.broker = broker
  /-- A resolved call returned entries that it had received. -/
  result : ∀ result, state.phase = .resolved result →
    ∃ entries : List ResponseEntry, result = entries.map some ∧
      ∀ entry ∈ entries, ∃ reported, Reported state.history reported ∧ entry ∈ reported

/-- What was reported stays reported. -/
theorem Reported.mono {history next : List (Happening μ)} {entries : List ResponseEntry}
    (h : Reported history entries) (hsub : history ⊆ next) : Reported next entries := by
  obtain ⟨hsucceeded, request, hmem⟩ := h
  exact ⟨hsucceeded, request, hsub hmem⟩

/-- The kept entries are those of the responses kept for some broker. -/
theorem mem_keptEntries {responses : ResponsePerBroker} {entry : ResponseEntry} :
    entry ∈ keptEntries responses ↔
      ∃ broker entries, kept responses broker = some entries ∧ entry ∈ entries := by
  rw [keptEntries, List.mem_flatMap]
  constructor
  · rintro ⟨broker, -, hentry⟩
    cases hkept : kept responses broker with
    | none => simp [hkept] at hentry
    | some entries => exact ⟨broker, entries, hkept, by simpa [hkept] using hentry⟩
  · rintro ⟨broker, entries, hkept, hentry⟩
    exact ⟨broker, mem_keys_of_kept (by simp [hkept]), by simpa [hkept] using hentry⟩

namespace Accounts

/-- A call that has sent nothing has nothing to account for. -/
theorem initial (partitioner : σ) : Accounts (SendState.initial partitioner : SendState μ σ) := by
  constructor <;> simp [SendState.initial, kept, InsertionMap.get?, InsertionMap.empty]

variable {state next : SendState μ σ}

/-- Once nothing of the attempt is in flight, every broker in the map has its answer. -/
theorem resolveIfDone (h : Accounts state) : Accounts (resolveIfDone state) := by
  cases hphase : state.phase with
  | sending retryCount =>
      simp only [Producer.resolveIfDone, hphase]
      split
      · exact h
      · next hdone =>
          refine ⟨h.inFlight, h.answered, h.received, by simp, ?_⟩
          intro result hresult
          cases hresult
          have hanswered : ∀ broker ∈ state.responsePerBroker.keys,
              (kept state.responsePerBroker broker).isSome := by
            intro broker hbroker
            by_contra hnone
            obtain ⟨request, hmem, hattempt, -⟩ := h.awaited retryCount hphase broker hbroker
              (Option.not_isSome_iff_eq_none.mp hnone)
            exact hdone (List.any_eq_true.mpr ⟨request, hmem, by simpa using hattempt⟩)
          refine ⟨keptEntries state.responsePerBroker, flatResponses_eq hanswered, ?_⟩
          intro entry hentry
          obtain ⟨broker, entries, hkept, hmem⟩ := mem_keptEntries.mp hentry
          exact ⟨entries, h.received broker entries hkept, hmem⟩
  | waiting _ => simpa only [Producer.resolveIfDone, hphase] using h
  | resolved _ => simpa only [Producer.resolveIfDone, hphase] using h
  | rejected _ => simpa only [Producer.resolveIfDone, hphase] using h

/-- A new attempt awaits every broker that has no answer. -/
theorem sent {config : SendConfig μ σ} {view : ClusterView} (h : Accounts state)
    (hnodup : (config.topicMessages.map Prod.fst).Nodup) {retryCount : Nat}
    {planning : Planning μ σ} {requests : List (Request μ)}
    (hplan : createProducerRequests config view retryCount state.responsePerBroker
      state.partitioner = (planning, .ok requests)) :
    Accounts
      { responsePerBroker := planning.responsePerBroker
        partitioner := planning.partitioner
        phase := .sending retryCount
        inFlight := state.inFlight ++ requests
        history := state.history ++ requests.map .produced } := by
  have hattempt := createProducerRequests_ok hnodup hplan
  constructor
  · intro request hmem
    rcases List.mem_append.mp hmem with hold | hnew
    · exact List.mem_append_left _ (h.inFlight request hold)
    · exact List.mem_append_right _ (List.mem_map_of_mem hnew)
  · intro request entries hmem
    rcases List.mem_append.mp hmem with hold | hnew
    · exact List.mem_append_left _ (h.answered request entries hold)
    · obtain ⟨_, _, hother⟩ := List.mem_map.mp hnew
      cases hother
  · intro broker entries hkept
    rw [hattempt.kept_eq] at hkept
    exact (h.received broker entries hkept).mono (List.subset_append_left _ _)
  · intro current hphase broker hbroker hnone
    cases hphase
    refine ⟨⟨retryCount, broker, topicDataForBroker planning.topicMetadata broker⟩, ?_, rfl, rfl⟩
    rw [hattempt.requests_eq]
    exact List.mem_append_right _ (List.mem_map.mpr
      ⟨broker, mem_brokersWithoutResponse.mpr ⟨hbroker, hnone⟩, rfl⟩)
  · intro result hphase
    cases hphase

/-- An answer without error takes the place of the broker. -/
theorem succeeded (h : Accounts state) {index : Nat} {request : Request μ}
    (hrequest : state.inFlight[index]? = some request) {entries : List ResponseEntry}
    (hsucceeded : Succeeded entries) :
    Accounts { state with
      responsePerBroker := state.responsePerBroker.set request.broker (some entries)
      inFlight := state.inFlight.eraseIdx index
      history := state.history ++ [.answered request entries] } := by
  have hsub := List.subset_append_left state.history [.answered request entries]
  constructor
  · intro other hmem
    exact hsub (h.inFlight other (List.mem_of_mem_eraseIdx hmem))
  · intro other given hmem
    rcases List.mem_append.mp hmem with hold | hnew
    · exact hsub (h.answered other given hold)
    · cases List.mem_singleton.mp hnew
      exact hsub (h.inFlight request (List.mem_of_getElem? hrequest))
  · intro broker given hkept
    rw [kept_set] at hkept
    split at hkept
    · cases hkept
      exact ⟨hsucceeded, request, List.mem_append_right _ (List.mem_singleton_self _)⟩
    · exact (h.received broker given hkept).mono hsub
  · intro retryCount hphase broker hbroker hnone
    rw [kept_set] at hnone
    split at hnone
    · cases hnone
    · next hne =>
        obtain ⟨other, hother, hattempt, hplace⟩ := h.awaited retryCount hphase broker
          ((InsertionMap.mem_keys_set.mp hbroker).resolve_left hne) hnone
        refine ⟨other, mem_eraseIdx_of_ne hrequest hother ?_, hattempt, hplace⟩
        rintro rfl
        exact hne hplace.symm
  · intro result hphase
    obtain ⟨returned, hresult, hreported⟩ := h.result result hphase
    refine ⟨returned, hresult, fun entry hentry => ?_⟩
    obtain ⟨reported, hold, hmem⟩ := hreported entry hentry
    exact ⟨reported, hold.mono hsub, hmem⟩

/-- A failed request takes its broker out of the map, or leaves the map alone. -/
theorem failed (h : Accounts state) {index : Nat} {request : Request μ}
    (hrequest : state.inFlight[index]? = some request)
    (hinFlight : next.inFlight = state.inFlight.eraseIdx index)
    (hresponses : next.responsePerBroker = state.responsePerBroker.delete request.broker ∨
      next.responsePerBroker = state.responsePerBroker)
    (hhistory : next.history = state.history ∨
      ∃ entries, next.history = state.history ++ [.answered request entries])
    (hphases : (∀ retryCount, state.phase = .sending retryCount → request.attempt ≠ retryCount) ∧
      next.phase = state.phase ∨ next.phase.Failed) : Accounts next := by
  have hsub : state.history ⊆ next.history := by
    rcases hhistory with hsame | ⟨entries, hgrown⟩
    · rw [hsame]
      exact List.Subset.refl _
    · rw [hgrown]
      exact List.subset_append_left _ _
  constructor
  · intro other hmem
    exact hsub (h.inFlight other (List.mem_of_mem_eraseIdx (hinFlight ▸ hmem)))
  · intro other given hmem
    rcases hhistory with hsame | ⟨entries, hgrown⟩
    · exact hsub (h.answered other given (hsame ▸ hmem))
    · rw [hgrown] at hmem
      rcases List.mem_append.mp hmem with hold | hnew
      · exact hsub (h.answered other given hold)
      · cases List.mem_singleton.mp hnew
        exact hsub (h.inFlight request (List.mem_of_getElem? hrequest))
  · intro broker given hkept
    refine (h.received broker given ?_).mono hsub
    rcases hresponses with hdelete | hsame
    · rw [hdelete, kept_delete] at hkept
      split at hkept
      · cases hkept
      · exact hkept
    · exact hsame ▸ hkept
  · intro retryCount hphase broker hbroker hnone
    rcases hphases with ⟨hstale, hsame⟩ | hfailed
    · rw [hsame] at hphase
      have hold : broker ∈ state.responsePerBroker.keys ∧
          kept state.responsePerBroker broker = none := by
        rcases hresponses with hdelete | hkept
        · rw [hdelete] at hbroker hnone
          -- a broker that was taken out of the map is not in it
          have hne : broker ≠ request.broker := by
            rintro rfl
            obtain ⟨value, hget⟩ := InsertionMap.mem_keys_iff.mp hbroker
            simp at hget
          rw [kept_delete, if_neg hne] at hnone
          exact ⟨mem_keys_delete hbroker, hnone⟩
        · exact ⟨hkept ▸ hbroker, hkept ▸ hnone⟩
      obtain ⟨other, hother, hattempt, hplace⟩ := h.awaited retryCount hphase broker hold.1 hold.2
      refine ⟨other, ?_, hattempt, hplace⟩
      rw [hinFlight]
      -- the request that answers for the broker is of this attempt, the failed one of an earlier
      refine mem_eraseIdx_of_ne hrequest hother ?_
      rintro rfl
      exact hstale retryCount hphase hattempt
    · simp [hphase, Phase.Failed] at hfailed
  · intro result hphase
    rcases hphases with ⟨-, hsame⟩ | hfailed
    · obtain ⟨returned, hresult, hreported⟩ := h.result result (hsame ▸ hphase)
      refine ⟨returned, hresult, fun entry hentry => ?_⟩
      obtain ⟨reported, hold, hmem⟩ := hreported entry hentry
      exact ⟨reported, hold.mono hsub, hmem⟩
    · simp [hphase, Phase.Failed] at hfailed

/-- Every step keeps the account. -/
theorem step {config : SendConfig μ σ} (hnodup : (config.topicMessages.map Prod.fst).Nodup)
    {event : SendEvent} (h : Accounts state) (htransition : Transition config state event next) :
    Accounts next := by
  cases htransition with
  | notSent _ _ hkept _ hfailed hinFlight hhistory =>
      constructor
      · intro request hmem
        rw [hhistory]
        exact h.inFlight request (hinFlight ▸ hmem)
      · rw [hhistory]
        exact h.answered
      · intro broker entries hsome
        rw [hkept] at hsome
        rw [hhistory]
        exact h.received broker entries hsome
      · intro retryCount hphase
        simp [hphase, Phase.Failed] at hfailed
      · intro result hphase
        simp [hphase, Phase.Failed] at hfailed
  | sent retryCount planning requests _ hplan => exact (h.sent hnodup hplan).resolveIfDone
  | succeeded request hrequest hsucceeded => exact (h.succeeded hrequest hsucceeded).resolveIfDone
  | failed index request hrequest hinFlight hresponses hhistory hphases =>
      refine h.failed hrequest hinFlight hresponses ?_ hphases
      rcases hhistory with hsame | ⟨answer, recovery, -, -, hgrown⟩
      · exact .inl hsame
      · exact .inr ⟨_, hgrown⟩

end Accounts

/-! ## What the requests carry -/

/-- A group of an attempt is a part of the messages given for its topic. -/
theorem AttemptPlan.carries {config : SendConfig μ σ} {view : ClusterView} {attempt : Nat}
    {responses : ResponsePerBroker} {planning : Planning μ σ} {requests : List (Request μ)}
    (h : AttemptPlan config view attempt responses planning requests)
    (hnodup : (config.topicMessages.map Prod.fst).Nodup) {request : Request μ}
    (hrequest : request ∈ requests) {topic : String} {data : PartitionData μ}
    (hdata : data ∈ partitionsFor topic request.topicData) :
    data.messages ≠ [] ∧ data.messages.Sublist (messagesOf config.topicMessages topic) := by
  rw [h.requests_eq] at hrequest
  obtain ⟨broker, -, rfl⟩ := List.mem_map.mp hrequest
  rw [partitionsFor_topicDataForBroker] at hdata
  obtain ⟨plan, hplan, hgroup⟩ := List.mem_flatMap.mp hdata
  rw [Option.mem_toList] at hplan
  by_cases hmem : topic ∈ config.topicMessages.map Prod.fst
  · obtain ⟨⟨first, messages⟩, hentry, rfl⟩ := List.mem_map.mp hmem
    obtain ⟨state, other, hplanned, hget⟩ := h.planned first messages hentry
    cases hplan.symm.trans hget
    rw [groupsFor, planned_leaders hplanned] at hgroup
    obtain ⟨partition, hpartition, rfl⟩ := List.mem_map.mp hgroup
    have hkey := mem_propertyKeys.mp (List.mem_of_mem_filter hpartition)
    rw [messagesOf_of_mem hnodup hentry]
    rw [hplanned.groups] at hkey ⊢
    rw [groupMessagesPerPartition_get? hplanned.metadata]
    obtain ⟨assigned, hassigned, rfl⟩ :=
      (groupMessagesPerPartition_keys hplanned.metadata _ _ _).mp hkey
    refine ⟨List.ne_nil_of_mem (List.mem_map_of_mem (List.mem_filter.mpr
      ⟨hassigned, decide_eq_true rfl⟩)), ?_⟩
    have hsublist := (List.filter_sublist (p := fun entry => decide (entry.1 = assigned.1))
      (l := (assignments config.partitioner first (findTopicPartitionMetadata view first) state
        messages).1)).map Prod.snd
    rwa [assignments_map_snd] at hsublist
  · rw [h.unplanned topic hmem] at hplan
    cases hplan

/-- Whatever is produced for a topic is a part of the messages given for it. -/
def CarriesGiven (topicMessages : List (String × List μ)) (state : SendState μ σ) : Prop :=
  ∀ request, .produced request ∈ state.history →
    ∀ topic, ∀ data ∈ partitionsFor topic request.topicData,
      data.messages ≠ [] ∧ data.messages.Sublist (messagesOf topicMessages topic)

/-- What an event adds to the history. -/
theorem Transition.mem_history {config : SendConfig μ σ} {state next : SendState μ σ}
    {event : SendEvent} (h : Transition config state event next) {happening : Happening μ}
    (hmem : happening ∈ next.history) :
    happening ∈ state.history ∨
    (∃ view recovery retryCount planning requests request, event = .attempt view recovery ∧
      createProducerRequests config view retryCount state.responsePerBroker state.partitioner =
        (planning, .ok requests) ∧ request ∈ requests ∧ happening = .produced request) ∨
    ∃ index answer recovery request, event = .answer index answer recovery ∧
      state.inFlight[index]? = some request ∧
      happening = .answered request (responseEntries request.topicData answer) := by
  cases h with
  | notSent _ _ _ _ _ _ hhistory => exact .inl (hhistory ▸ hmem)
  | @sent view recovery retryCount planning requests _ hplan =>
      rw [resolveIfDone_history] at hmem
      rcases List.mem_append.mp hmem with hold | hnew
      · exact .inl hold
      · obtain ⟨request, hrequest, rfl⟩ := List.mem_map.mp hnew
        exact .inr (.inl ⟨view, recovery, retryCount, planning, requests, request, rfl, hplan,
          hrequest, rfl⟩)
  | @succeeded index answer recovery request hrequest _ =>
      rw [resolveIfDone_history] at hmem
      rcases List.mem_append.mp hmem with hold | hnew
      · exact .inl hold
      · exact .inr (.inr ⟨index, answer, recovery, request, rfl, hrequest,
          List.mem_singleton.mp hnew⟩)
  | failed index request hrequest _ _ hhistory _ =>
      rcases hhistory with hsame | ⟨answer, recovery, hevent, -, hgrown⟩
      · exact .inl (hsame ▸ hmem)
      · rw [hgrown] at hmem
        rcases List.mem_append.mp hmem with hold | hnew
        · exact .inl hold
        · exact .inr (.inr ⟨index, answer, recovery, request, hevent, hrequest,
            List.mem_singleton.mp hnew⟩)

/-- After every step the requests carry given messages only. -/
theorem CarriesGiven.step {config : SendConfig μ σ}
    (hnodup : (config.topicMessages.map Prod.fst).Nodup) {state next : SendState μ σ}
    {event : SendEvent} (h : CarriesGiven config.topicMessages state)
    (htransition : Transition config state event next) :
    CarriesGiven config.topicMessages next := by
  intro request hmem topic data hdata
  rcases htransition.mem_history hmem with hold |
    ⟨view, recovery, retryCount, planning, requests, produced, -, hplan, hproduced, hsame⟩ |
    ⟨_, _, _, _, -, -, hsame⟩
  · exact h request hold topic data hdata
  · cases hsame
    exact (createProducerRequests_ok hnodup hplan).carries hnodup hproduced hdata
  · cases hsame

end KafkaJs.Producer
