import KafkaJs.Producer.Delivery

/-!
# Calls during which the cluster does not change

Every attempt sees the same topic metadata and the same broker objects, and starts only after
the requests of the attempt before it are settled. Then the response map is accurate: a broker
has an answer exactly if a request to it was acknowledged (`Steady`). The partitioner is
arbitrary here.
-/

namespace KafkaJs.Producer

open Data Cluster Execution

variable {μ σ : Type}

/-- The condition on a step: an attempt sees the given metadata and pool, and starts with
nothing in flight. Connecting to a broker may still fail. -/
def SameCluster (cluster : ClusterView) (state : SendState μ σ) : SendEvent → Prop
  | .attempt view _ =>
      view.topicMetadata = cluster.topicMetadata ∧ view.pool = cluster.pool ∧ state.inFlight = []
  | _ => True

/-- The response map and the requests in flight agree with what was acknowledged. -/
structure Steady (pool : Int → Option Nat) (state : SendState μ σ) : Prop where
  /-- The brokers of the response map are the pooled ones. -/
  pooled : ∀ broker ∈ state.responsePerBroker.keys, pool broker.nodeId = some broker.handle
  /-- The brokers of requests in flight are pooled and have no answer. -/
  waiting : ∀ request ∈ state.inFlight,
    pool request.broker.nodeId = some request.broker.handle ∧
    kept state.responsePerBroker request.broker = none
  /-- No two requests in flight go to one broker. -/
  distinct : (state.inFlight.map Request.broker).Nodup
  /-- The answer to an acknowledged request is kept. -/
  answered : ∀ request ∈ acknowledged state.history, ∃ answer,
    Succeeded (responseEntries request.topicData answer) ∧
    kept state.responsePerBroker request.broker =
      some (responseEntries request.topicData answer)
  /-- Every kept answer acknowledged a request. -/
  acknowledging : ∀ broker, (kept state.responsePerBroker broker).isSome →
    ∃ request ∈ acknowledged state.history, request.broker = broker

/-- Recording a response changes the kept response of its broker only. -/
theorem kept_set (responses : ResponsePerBroker) (broker other : Broker)
    (entries : List ResponseEntry) :
    kept (responses.set broker (some entries)) other =
      if other = broker then some entries else kept responses other := by
  rw [kept, InsertionMap.get?_set]
  split <;> rfl

/-- Deleting a reservation leaves the kept responses of the other brokers. -/
theorem kept_delete (responses : ResponsePerBroker) (broker other : Broker) :
    kept (responses.delete broker) other =
      if other = broker then none else kept responses other := by
  rw [kept, InsertionMap.get?_delete]
  split <;> rfl

/-- A broker with an answer is in the response map. -/
theorem mem_keys_of_kept {responses : ResponsePerBroker} {broker : Broker}
    (h : (kept responses broker).isSome) : broker ∈ responses.keys := by
  by_contra habsent
  rw [← InsertionMap.get?_eq_none_iff] at habsent
  simp [kept, habsent] at h

/-- Deleting adds no broker. -/
theorem mem_keys_delete {responses : ResponsePerBroker} {broker other : Broker}
    (h : other ∈ (responses.delete broker).keys) : other ∈ responses.keys := by
  rw [InsertionMap.mem_keys_iff] at h ⊢
  obtain ⟨value, hget⟩ := h
  rw [InsertionMap.get?_delete] at hget
  split at hget
  · cases hget
  · exact ⟨value, hget⟩

/-- A new call is steady: no broker is recorded yet. -/
theorem steady_initial (pool : Int → Option Nat) (partitioner : σ) :
    Steady pool (SendState.initial partitioner : SendState μ σ) := by
  constructor <;> simp [SendState.initial, InsertionMap.keys, InsertionMap.empty, acknowledged,
    kept, InsertionMap.get?]

/-- Distinct brokers of the requests in flight, seen from one of them. -/
theorem Steady.other_broker {pool : Int → Option Nat} {state : SendState μ σ}
    (h : Steady pool state) {index : Nat} {request : Request μ}
    (hrequest : state.inFlight[index]? = some request) :
    ∀ other ∈ state.inFlight.eraseIdx index, other.broker ≠ request.broker := by
  obtain ⟨hindex, hget⟩ := List.getElem?_eq_some_iff.mp hrequest
  have hperm := (List.getElem_cons_eraseIdx_perm hindex).map Request.broker
  have hnodup := hperm.nodup_iff.mpr h.distinct
  rw [hget, List.map_cons, List.nodup_cons] at hnodup
  intro other hmem heq
  exact hnodup.1 (List.mem_map.mpr ⟨other, hmem, heq⟩)

/-- Acknowledging a request in flight. -/
theorem Steady.succeeded {pool : Int → Option Nat} {state : SendState μ σ}
    (h : Steady pool state) {index : Nat} {request : Request μ}
    {answer : String → Int → PartitionAnswer}
    (hrequest : state.inFlight[index]? = some request)
    (hsucceeded : Succeeded (responseEntries request.topicData answer)) :
    Steady pool { state with
      responsePerBroker := state.responsePerBroker.set request.broker
        (some (responseEntries request.topicData answer))
      inFlight := state.inFlight.eraseIdx index
      history := state.history ++
        [.answered request (responseEntries request.topicData answer)] } := by
  have hmem := List.mem_of_getElem? hrequest
  have hother := h.other_broker hrequest
  have hacknowledged : acknowledged (state.history ++
      [Happening.answered request (responseEntries request.topicData answer)]) =
      acknowledged state.history ++ [request] := by
    rw [acknowledged_append, acknowledged_answered, if_pos hsucceeded]
  constructor
  · intro broker hbroker
    rcases InsertionMap.mem_keys_set.mp hbroker with rfl | hold
    · exact (h.waiting request hmem).1
    · exact h.pooled broker hold
  · intro other hflying
    obtain ⟨hpooled, hkept⟩ := h.waiting other (List.mem_of_mem_eraseIdx hflying)
    refine ⟨hpooled, ?_⟩
    rw [kept_set, if_neg (hother other hflying)]
    exact hkept
  · exact h.distinct.sublist ((List.eraseIdx_sublist _ _).map _)
  · intro other hmemOther
    simp only [hacknowledged, List.mem_append, List.mem_singleton] at hmemOther
    rcases hmemOther with hold | rfl
    · obtain ⟨given, hgiven, hkept⟩ := h.answered other hold
      have hne : other.broker ≠ request.broker := by
        intro heq
        rw [heq, (h.waiting request hmem).2] at hkept
        cases hkept
      exact ⟨given, hgiven, by rw [kept_set, if_neg hne]; exact hkept⟩
    · exact ⟨answer, hsucceeded, by rw [kept_set, if_pos rfl]⟩
  · intro broker hsome
    simp only [hacknowledged, List.mem_append, List.mem_singleton]
    rw [kept_set] at hsome
    split at hsome
    · next heq => exact ⟨request, Or.inr rfl, heq.symm⟩
    · obtain ⟨other, hold, hbroker⟩ := h.acknowledging broker hsome
      exact ⟨other, Or.inl hold, hbroker⟩

/-- Losing a request in flight. -/
theorem Steady.failed {pool : Int → Option Nat} {state next : SendState μ σ}
    (h : Steady pool state) {index : Nat} {request : Request μ}
    (hrequest : state.inFlight[index]? = some request)
    (hinFlight : next.inFlight = state.inFlight.eraseIdx index)
    (hresponses : next.responsePerBroker = state.responsePerBroker.delete request.broker ∨
      next.responsePerBroker = state.responsePerBroker)
    (hhistory : acknowledged next.history = acknowledged state.history) :
    Steady pool next := by
  -- the broker of the failed request had no answer, so nothing that is kept changes
  have hkept : ∀ broker, kept next.responsePerBroker broker =
      kept state.responsePerBroker broker := by
    intro broker
    rcases hresponses with hdelete | hsame
    · rw [hdelete, kept_delete]
      split
      · next heq =>
          rw [heq, (h.waiting request (List.mem_of_getElem? hrequest)).2]
      · rfl
    · rw [hsame]
  constructor
  · intro broker hbroker
    rcases hresponses with hdelete | hsame
    · exact h.pooled broker (mem_keys_delete (hdelete ▸ hbroker))
    · exact h.pooled broker (hsame ▸ hbroker)
  · intro other hflying
    rw [hkept]
    exact h.waiting other (List.mem_of_mem_eraseIdx (hinFlight ▸ hflying))
  · rw [hinFlight]
    exact h.distinct.sublist ((List.eraseIdx_sublist _ _).map _)
  · intro other hmem
    rw [hkept]
    exact h.answered other (hhistory ▸ hmem)
  · intro broker hsome
    rw [hkept] at hsome
    rw [hhistory]
    exact h.acknowledging broker hsome

/-- Starting an attempt. -/
theorem Steady.sent {config : SendConfig μ σ} {cluster view : ClusterView}
    {state : SendState μ σ} (h : Steady cluster.pool state) (hempty : state.inFlight = [])
    (hpool : view.pool = cluster.pool) {retryCount : Nat} {planning : Planning μ σ}
    {requests : List (Request μ)}
    (hplan : AttemptPlan config view retryCount state.responsePerBroker planning requests) :
    Steady cluster.pool
      { responsePerBroker := planning.responsePerBroker
        partitioner := planning.partitioner
        phase := .sending retryCount
        inFlight := state.inFlight ++ requests
        history := state.history ++ requests.map .produced } := by
  have hpooled : ∀ broker ∈ planning.responsePerBroker.keys,
      cluster.pool broker.nodeId = some broker.handle := by
    intro broker hbroker
    rcases hplan.origin broker hbroker with hold | ⟨nodeId, hfound⟩
    · exact h.pooled broker hold
    · obtain ⟨rfl, hhandle⟩ := findBroker_ok hfound
      rw [← hpool]
      exact hhandle
  have hbrokers : requests.map Request.broker =
      brokersWithoutResponse planning.responsePerBroker := by
    rw [hplan.requests_eq, List.map_map]
    exact List.map_id' _
  constructor
  · exact hpooled
  · intro request hmem
    have hbroker : request.broker ∈ brokersWithoutResponse planning.responsePerBroker := by
      rw [← hbrokers]
      exact List.mem_map_of_mem (by simpa [hempty] using hmem)
    obtain ⟨hkeys, hkept⟩ := mem_brokersWithoutResponse.mp hbroker
    exact ⟨hpooled _ hkeys, hkept⟩
  · rw [hempty, List.nil_append, hbrokers]
    exact brokersWithoutResponse_nodup _
  · intro request hmem
    rw [hplan.kept_eq]
    exact h.answered request (by simpa using hmem)
  · intro broker hsome
    rw [hplan.kept_eq] at hsome
    simpa using h.acknowledging broker hsome

/-- The phase plays no part. -/
theorem Steady.resolveIfDone {pool : Int → Option Nat} {state : SendState μ σ}
    (h : Steady pool state) : Steady pool (resolveIfDone state) := by
  constructor
  · simpa using h.pooled
  · simpa using h.waiting
  · simpa using h.distinct
  · simpa using h.answered
  · simpa using h.acknowledging

/-- Every step keeps the response map accurate while the cluster does not change. -/
theorem steady_step {config : SendConfig μ σ} {cluster : ClusterView}
    (hnodup : (config.topicMessages.map Prod.fst).Nodup) {state next : SendState μ σ}
    {event : SendEvent} (h : Steady cluster.pool state)
    (hsame : SameCluster cluster state event)
    (htransition : Transition config state event next) : Steady cluster.pool next := by
  cases htransition with
  | notSent _ _ hkept hkeys _ hinFlight hhistory =>
      constructor
      · intro broker hbroker
        rcases hkeys broker hbroker with hold | ⟨view, recovery, nodeId, rfl, hfound⟩
        · exact h.pooled broker hold
        · obtain ⟨rfl, hhandle⟩ := findBroker_ok hfound
          rw [← hsame.2.1]
          exact hhandle
      · intro request hmem
        rw [hkept]
        exact h.waiting request (hinFlight ▸ hmem)
      · rw [hinFlight]
        exact h.distinct
      · intro request hmem
        rw [hkept]
        exact h.answered request (hhistory ▸ hmem)
      · intro broker hsome
        rw [hkept] at hsome
        rw [hhistory]
        exact h.acknowledging broker hsome
  | sent retryCount planning requests _ hplan =>
      exact (h.sent hsame.2.2 hsame.2.1 (createProducerRequests_ok hnodup hplan)).resolveIfDone
  | succeeded request hrequest hsucceeded =>
      exact (h.succeeded hrequest hsucceeded).resolveIfDone
  | failed index request hrequest hinFlight hresponses hhistory _ =>
      refine h.failed hrequest hinFlight hresponses ?_
      rcases hhistory with hsameHistory | ⟨_, _, -, hfailed, hanswered⟩
      · rw [hsameHistory]
      · simp [hanswered, acknowledged_answered, hfailed]

end KafkaJs.Producer
