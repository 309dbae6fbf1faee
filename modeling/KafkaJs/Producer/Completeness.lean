import KafkaJs.Producer.Receipts
import Mathlib.Data.List.Pairwise

/-!
# Entries for all messages

When attempts start with nothing in flight, the response map keeps every answer without error
(`Balanced`), since a broker that has answered is not sent another request. When the attempts are
routed as well, a call that resolves returns one entry for each partition that was given messages
(`Complete.resolved`), and the log of the partition has exactly these messages at the offset of the
entry (`published_of_run`).
-/

namespace KafkaJs.Producer

open Data Cluster Execution Protocol

variable {μ σ : Type}

/-! ## The response map -/

/-- The response map has the answers without error, and no others. -/
structure Balanced (state : SendState μ σ) : Prop where
  /-- The brokers of requests in flight have no answer. -/
  waiting : ∀ request ∈ state.inFlight, kept state.responsePerBroker request.broker = none
  /-- No two requests in flight go to one broker. -/
  distinct : (state.inFlight.map Request.broker).Nodup
  /-- An answer without error is kept. -/
  answered : ∀ request entries, .answered request entries ∈ state.history → Succeeded entries →
    kept state.responsePerBroker request.broker = some entries
  /-- An answer that is kept came from the broker. -/
  origin : ∀ broker entries, kept state.responsePerBroker broker = some entries →
    ∃ request, .answered request entries ∈ state.history ∧ request.broker = broker

namespace Balanced

/-- At first nothing is answered. -/
theorem initial (partitioner : σ) : Balanced (SendState.initial partitioner : SendState μ σ) := by
  constructor <;> simp [SendState.initial, kept, InsertionMap.get?, InsertionMap.empty]

variable {state next : SendState μ σ}

/-- Resolving the call keeps the balance. -/
theorem resolveIfDone (h : Balanced state) : Balanced (resolveIfDone state) := by
  constructor
  · simpa using h.waiting
  · simpa using h.distinct
  · simpa using h.answered
  · simpa using h.origin

/-- An attempt sends one request to each broker without an answer. -/
theorem sent {config : SendConfig μ σ} {view : ClusterView} (h : Balanced state)
    (hempty : state.inFlight = []) {retryCount : Nat} {planning : Planning μ σ}
    {requests : List (Request μ)}
    (hplan : AttemptPlan config view retryCount state.responsePerBroker planning requests) :
    Balanced
      { responsePerBroker := planning.responsePerBroker
        partitioner := planning.partitioner
        phase := .sending retryCount
        inFlight := state.inFlight ++ requests
        history := state.history ++ requests.map .produced } := by
  have hbrokers : requests.map Request.broker =
      brokersWithoutResponse planning.responsePerBroker := by
    rw [hplan.requests_eq, List.map_map]
    exact List.map_id' _
  have hhistory : ∀ request entries,
      .answered request entries ∈ state.history ++ requests.map Happening.produced ↔
        .answered request entries ∈ state.history := by
    simp
  constructor
  · intro request hmem
    refine (mem_brokersWithoutResponse.mp ?_).2
    rw [← hbrokers]
    exact List.mem_map_of_mem (by simpa [hempty] using hmem)
  · rw [hempty, List.nil_append, hbrokers]
    exact brokersWithoutResponse_nodup _
  · intro request entries hmem hsucceeded
    rw [hplan.kept_eq]
    exact h.answered request entries ((hhistory request entries).mp hmem) hsucceeded
  · intro broker entries hkept
    rw [hplan.kept_eq] at hkept
    obtain ⟨request, hmem, hbroker⟩ := h.origin broker entries hkept
    exact ⟨request, (hhistory request entries).mpr hmem, hbroker⟩

/-- An answer without error is the first one of its broker. -/
theorem succeeded (h : Balanced state) {index : Nat} {request : Request μ}
    (hrequest : state.inFlight[index]? = some request) (entries : List ResponseEntry) :
    Balanced { state with
      responsePerBroker := state.responsePerBroker.set request.broker (some entries)
      inFlight := state.inFlight.eraseIdx index
      history := state.history ++ [.answered request entries] } := by
  have hmem := List.mem_of_getElem? hrequest
  -- an answer that was kept before is one of another broker
  have hother : ∀ broker given, kept state.responsePerBroker broker = some given →
      broker ≠ request.broker := by
    rintro broker given hkept rfl
    cases (h.waiting request hmem).symm.trans hkept
  have hlast := List.mem_append_right state.history
    (List.mem_singleton_self (Happening.answered request entries))
  constructor
  · intro other hflying
    -- no two requests in flight go to one broker
    have hne : other.broker ≠ request.broker := by
      obtain ⟨hindex, hget⟩ := List.getElem?_eq_some_iff.mp hrequest
      have hperm := (List.getElem_cons_eraseIdx_perm hindex).map Request.broker
      have hnodup := hperm.nodup_iff.mpr h.distinct
      rw [hget, List.map_cons, List.nodup_cons] at hnodup
      exact fun heq => hnodup.1 (heq ▸ List.mem_map_of_mem hflying)
    rw [kept_set, if_neg hne]
    exact h.waiting other (List.mem_of_mem_eraseIdx hflying)
  · exact h.distinct.sublist ((List.eraseIdx_sublist _ _).map _)
  · intro other given hanswered hgiven
    rw [kept_set]
    rcases List.mem_append.mp hanswered with hold | hnew
    · have hkept := h.answered other given hold hgiven
      rw [if_neg (hother _ _ hkept), hkept]
    · cases List.mem_singleton.mp hnew
      rw [if_pos rfl]
  · intro broker given hkept
    rw [kept_set] at hkept
    split at hkept
    · next hbroker =>
        cases hkept
        exact ⟨request, hlast, hbroker.symm⟩
    · obtain ⟨other, hold, hbroker⟩ := h.origin broker given hkept
      exact ⟨other, List.mem_append_left _ hold, hbroker⟩

/-- A request that fails had no answer to lose. -/
theorem failed (h : Balanced state) {index : Nat} {request : Request μ}
    (hrequest : state.inFlight[index]? = some request)
    (hinFlight : next.inFlight = state.inFlight.eraseIdx index)
    (hresponses : next.responsePerBroker = state.responsePerBroker.delete request.broker ∨
      next.responsePerBroker = state.responsePerBroker)
    (hhistory : next.history = state.history ∨ ∃ entries, ¬ Succeeded entries ∧
      next.history = state.history ++ [.answered request entries]) : Balanced next := by
  -- the broker of a request in flight has no answer yet, so deleting its entry loses none
  have hkept : ∀ broker, kept next.responsePerBroker broker =
      kept state.responsePerBroker broker := by
    intro broker
    rcases hresponses with hdelete | hsame
    · rw [hdelete, kept_delete]
      split
      · next heq => rw [heq, h.waiting request (List.mem_of_getElem? hrequest)]
      · rfl
    · rw [hsame]
  constructor
  · intro other hflying
    rw [hkept]
    exact h.waiting other (List.mem_of_mem_eraseIdx (hinFlight ▸ hflying))
  · rw [hinFlight]
    exact h.distinct.sublist ((List.eraseIdx_sublist _ _).map _)
  · intro other given hanswered hgiven
    rw [hkept]
    rcases hhistory with hsame | ⟨entries, hfailed, hgrown⟩
    · exact h.answered other given (hsame ▸ hanswered) hgiven
    · rw [hgrown] at hanswered
      rcases List.mem_append.mp hanswered with hold | hnew
      · exact h.answered other given hold hgiven
      · cases List.mem_singleton.mp hnew
        exact absurd hgiven hfailed
  · intro broker given hsome
    rw [hkept] at hsome
    obtain ⟨other, hold, hbroker⟩ := h.origin broker given hsome
    refine ⟨other, ?_, hbroker⟩
    rcases hhistory with hsame | ⟨entries, -, hgrown⟩
    · exact hsame ▸ hold
    · rw [hgrown]
      exact List.mem_append_left _ hold

/-- Every step keeps the balance as long as attempts start with nothing in flight. -/
theorem step {config : SendConfig μ σ} (hnodup : (config.topicMessages.map Prod.fst).Nodup)
    {event : SendEvent} (h : Balanced state)
    (hempty : ∀ view recovery, event = .attempt view recovery → state.inFlight = [])
    (htransition : Transition config state event next) : Balanced next := by
  cases htransition with
  | notSent _ _ hkept _ _ hinFlight hhistory =>
      constructor
      · intro request hmem
        rw [hkept]
        exact h.waiting request (hinFlight ▸ hmem)
      · rw [hinFlight]
        exact h.distinct
      · intro request entries hmem hsucceeded
        rw [hkept]
        exact h.answered request entries (hhistory ▸ hmem) hsucceeded
      · intro broker entries hsome
        rw [hkept] at hsome
        rw [hhistory]
        exact h.origin broker entries hsome
  | sent retryCount planning requests _ hplan =>
      exact (h.sent (hempty _ _ rfl) (createProducerRequests_ok hnodup hplan)).resolveIfDone
  | succeeded request hrequest _ => exact (h.succeeded hrequest _).resolveIfDone
  | failed index request hrequest hinFlight hresponses hhistory _ =>
      refine h.failed hrequest hinFlight hresponses ?_
      rcases hhistory with hsame | ⟨answer, recovery, -, hfailed, hgrown⟩
      · exact .inl hsame
      · exact .inr ⟨_, hfailed, hgrown⟩

end Balanced

/-! ## Routed calls -/

/-- The places of a request are distinct if those of each topic are. -/
theorem pairs_nodup {topicData : List (TopicData μ)} (h : ∀ topic,
    ((partitionsFor topic topicData).map PartitionData.partition).Nodup) :
    (pairs topicData).Nodup := by
  induction topicData with
  | nil => exact List.nodup_nil
  | cons data rest ih =>
      have hfor : ∀ topic, partitionsFor topic (data :: rest) =
          (if data.topic = topic then data.partitions else []) ++ partitionsFor topic rest := by
        intro topic
        by_cases htopic : data.topic = topic <;> simp [partitionsFor, htopic]
      have hparts : ∀ topic, _ := fun topic =>
        List.nodup_append'.mp (List.map_append ▸ hfor topic ▸ h topic)
      show ((data.partitions.map fun entry => (data.topic, entry.partition)) ++ pairs rest).Nodup
      obtain ⟨hfirst, -, hdisjoint⟩ := hparts data.topic
      rw [if_pos rfl] at hfirst hdisjoint
      refine List.Nodup.append ?_ (ih fun topic => (hparts topic).2.1) ?_
      · have hmap := hfirst.map (f := fun partition => (data.topic, partition))
          fun _ _ heq => (Prod.mk.inj heq).2
        rwa [List.map_map] at hmap
      · rintro ⟨topic, partition⟩ hleft hright
        obtain ⟨entry, hentry, heq⟩ := List.mem_map.mp hleft
        cases heq
        obtain ⟨other, hother, hpartition⟩ := mem_pairs.mp hright
        exact hdisjoint (List.mem_map_of_mem hentry) (hpartition ▸ List.mem_map_of_mem hother)

section Routed

variable {partitionOf : String → μ → Int} {topicMessages : List (String × List μ)}

/-- What holds along every run whose attempts are routed. -/
structure Complete (partitionOf : String → μ → Int) (topicMessages : List (String × List μ))
    (state : SendState μ Unit) : Prop where
  accounts : Accounts state
  balanced : Balanced state
  delivering : Delivering partitionOf topicMessages state
  result : ∀ result, state.phase = .resolved result →
    result = flatResponses state.responsePerBroker

/-- At first nothing is sent. -/
theorem complete_initial : Complete partitionOf topicMessages (SendState.initial ()) :=
  ⟨.initial (), .initial (), delivering_initial, fun _ hphase => nomatch hphase⟩

/-- Every routed step keeps the account complete. -/
theorem complete_step {acks : Int} {retries : Nat} (hacks : acks ≠ 0)
    {state next : SendState μ Unit} {event : SendEvent}
    (h : Complete partitionOf topicMessages state)
    (hrouted : Routed partitionOf topicMessages state event)
    (hstep : step (pureConfig partitionOf topicMessages acks retries) state event = some next) :
    Complete partitionOf topicMessages next := by
  have htransition := step_cases hacks hstep
  have hempty : ∀ view recovery, event = .attempt view recovery → state.inFlight = [] := by
    rintro view recovery rfl
    exact hrouted.1
  exact
    { accounts := h.accounts.step (mergeTopicMessages_nodup _) htransition
      balanced := h.balanced.step (mergeTopicMessages_nodup _) hempty htransition
      delivering := delivering_step hacks state event next h.delivering hrouted hstep
      result := h.delivering.covered.result_step htransition }

/-- A list without `null` is that of the kept entries. -/
theorem eq_keptEntries {responses : ResponsePerBroker} {entries : List ResponseEntry}
    (h : flatResponses responses = entries.map some) : entries = keptEntries responses := by
  have hanswered : ∀ broker ∈ responses.keys, (kept responses broker).isSome := by
    intro broker hbroker
    obtain ⟨value, hget⟩ := InsertionMap.mem_keys_iff.mp hbroker
    cases value with
    | some given => simp [kept, hget]
    | none =>
        have hnull : none ∈ flatResponses responses := by
          rw [flatResponses, InsertionMap.values, List.flatMap_map]
          exact List.mem_flatMap.mpr
            ⟨(broker, none), InsertionMap.mem_entries_iff.mpr hget, List.mem_singleton_self _⟩
        simp [h] at hnull
  rw [flatResponses_eq hanswered] at h
  exact (List.map_injective_iff.mpr (Option.some_injective _) h).symm

/-- Every answer has an entry for each place of its request, in order. -/
def AnswersInOrder (history : List (Happening μ)) : Prop :=
  ∀ request entries, .answered request entries ∈ history →
    entries.map ResponseEntry.pair = pairs request.topicData

/-- A request is acknowledged if it was answered without error. -/
theorem mem_acknowledged {history : List (Happening μ)} {request : Request μ} :
    request ∈ acknowledged history ↔
      ∃ entries, .answered request entries ∈ history ∧ Succeeded entries := by
  constructor
  · intro hmem
    obtain ⟨happening, hhistory, heq⟩ := List.mem_filterMap.mp hmem
    cases happening with
    | produced _ => cases heq
    | answered other entries =>
        dsimp only at heq
        split at heq
        · next hsucceeded =>
            cases heq
            exact ⟨entries, hhistory, hsucceeded⟩
        · cases heq
  · rintro ⟨entries, hhistory, hsucceeded⟩
    exact List.mem_filterMap.mpr ⟨_, hhistory, if_pos hsucceeded⟩

/-- Two acknowledged requests have no place in common. -/
theorem Grouped.disjoint {requests : List (Request μ)}
    (h : Grouped partitionOf topicMessages requests) {first second : Request μ}
    (hfirst : first ∈ requests) (hsecond : second ∈ requests) (hne : first ≠ second)
    {place : String × Int} (hleft : place ∈ pairs first.topicData)
    (hright : place ∈ pairs second.topicData) : False := by
  obtain ⟨topic, partition⟩ := place
  have hnodup := (h topic).2
  rw [carried, List.map_flatMap] at hnodup
  have : Std.Symm (Function.onFun List.Disjoint fun request : Request μ =>
      (partitionsFor topic request.topicData).map PartitionData.partition) :=
    ⟨fun _ _ hapart _ hleft hright => hapart hright hleft⟩
  have hdisjoint := (List.nodup_flatMap.mp hnodup).2.forall hfirst hsecond hne
  obtain ⟨one, hone, hpartition⟩ := mem_pairs.mp hleft
  obtain ⟨other, hother, hsame⟩ := mem_pairs.mp hright
  exact hdisjoint (List.mem_map.mpr ⟨one, hone, hpartition⟩)
    (List.mem_map.mpr ⟨other, hother, hsame⟩)

/-- A request names no place twice. -/
theorem Grouped.pairs_nodup {requests : List (Request μ)}
    (h : Grouped partitionOf topicMessages requests) {request : Request μ}
    (hrequest : request ∈ requests) : (pairs request.topicData).Nodup := by
  refine Producer.pairs_nodup fun topic => ?_
  have hnodup := (h topic).2
  rw [carried, List.map_flatMap] at hnodup
  exact (List.nodup_flatMap.mp hnodup).1 request hrequest

namespace Complete

variable {state : SendState μ Unit}

/-- A kept answer is that to an acknowledged request. -/
theorem kept_pairs (h : Complete partitionOf topicMessages state)
    (horder : AnswersInOrder state.history) {broker : Broker}
    {entries : List ResponseEntry} (hkept : kept state.responsePerBroker broker = some entries) :
    ∃ request ∈ acknowledged state.history, request.broker = broker ∧
      entries.map ResponseEntry.pair = pairs request.topicData := by
  obtain ⟨hsucceeded, -⟩ := h.accounts.received broker entries hkept
  obtain ⟨request, hmem, hbroker⟩ := h.balanced.origin broker entries hkept
  exact ⟨request, mem_acknowledged.mpr ⟨entries, hmem, hsucceeded⟩, hbroker,
    horder request entries hmem⟩

/-- The acknowledged requests carry every partition with all of its messages, once. -/
theorem acknowledged_grouped (h : Complete partitionOf topicMessages state) :
    Grouped partitionOf topicMessages (acknowledged state.history) :=
  h.delivering.grouped.of_subperm (List.sublist_append_left _ _).subperm

/-- No place has two entries. -/
theorem keptEntries_nodup (h : Complete partitionOf topicMessages state)
    (horder : AnswersInOrder state.history) :
    ((keptEntries state.responsePerBroker).map ResponseEntry.pair).Nodup := by
  rw [keptEntries, List.map_flatMap]
  have hgrouped := h.acknowledged_grouped
  refine List.nodup_flatMap.mpr ⟨fun broker _ => ?_, ?_⟩
  · cases hkept : kept state.responsePerBroker broker with
    | none => exact List.nodup_nil
    | some entries =>
        obtain ⟨request, hrequest, -, hpairs⟩ := h.kept_pairs horder hkept
        show (entries.map ResponseEntry.pair).Nodup
        rw [hpairs]
        exact hgrouped.pairs_nodup hrequest
  · refine state.responsePerBroker.keys_nodup.pairwise_of_forall_ne ?_
    intro first _ second _ hne place hleft hright
    cases hkeptFirst : kept state.responsePerBroker first with
    | none => simp [hkeptFirst] at hleft
    | some entries =>
        cases hkeptSecond : kept state.responsePerBroker second with
        | none => simp [hkeptSecond] at hright
        | some others =>
            obtain ⟨one, hone, rfl, hpairs⟩ := h.kept_pairs horder hkeptFirst
            obtain ⟨other, hother, rfl, hothers⟩ := h.kept_pairs horder hkeptSecond
            simp only [hkeptFirst, hkeptSecond, Option.getD_some, hpairs, hothers]
              at hleft hright
            refine hgrouped.disjoint hone hother ?_ hleft hright
            rintro rfl
            exact hne rfl

/-- The list that a resolved call returns has every place once, and that of every message. -/
theorem resolved (h : Complete partitionOf topicMessages state)
    (horder : AnswersInOrder state.history) {result : List (Option ResponseEntry)}
    (hresolved : state.phase = .resolved result) :
    ∃ entries : List ResponseEntry, result = entries.map some ∧
      (entries.map ResponseEntry.pair).Nodup ∧
      ∀ topic, ∀ message ∈ messagesOf topicMessages topic,
        (topic, partitionOf topic message) ∈ entries.map ResponseEntry.pair := by
  obtain ⟨entries, hentries, -⟩ := h.accounts.result result hresolved
  cases eq_keptEntries ((h.result result hresolved).symm.trans hentries)
  refine ⟨_, hentries, h.keptEntries_nodup horder, fun topic message hmessage => ?_⟩
  obtain ⟨hempty, hall⟩ := h.delivering.covered.resolved result hresolved
  rw [outstanding, hempty, List.append_nil] at hall
  obtain ⟨data, hdata, hmem⟩ := List.mem_flatMap.mp ((hall topic).mem_iff.mpr hmessage)
  rw [(h.acknowledged_grouped topic).1 data hdata] at hmem
  have hpartition : partitionOf topic message = data.partition :=
    of_decide_eq_true (List.mem_filter.mp hmem).2
  obtain ⟨request, hrequest, hfor⟩ := List.mem_flatMap.mp hdata
  obtain ⟨given, hanswered, hsucceeded⟩ := mem_acknowledged.mp hrequest
  have hkept := h.balanced.answered request given hanswered hsucceeded
  have hplace : (topic, partitionOf topic message) ∈ given.map ResponseEntry.pair := by
    rw [horder request given hanswered]
    exact mem_pairs.mpr ⟨data, hfor, hpartition.symm⟩
  obtain ⟨entry, hentry, hpair⟩ := List.mem_map.mp hplace
  exact List.mem_map.mpr ⟨entry, mem_keptEntries.mpr ⟨_, given, hkept, hentry⟩, hpair⟩

end Complete

end Routed

/-! ## Entries and logs -/

section Published

variable {codecs : Codecs} {partitionOf : String → Produce.Message → Int}
  {topicMessages : List (String × List Produce.Message)}

/-- The attempts of the call are routed. -/
def Publication.Routed (partitionOf : String → Produce.Message → Int)
    (topicMessages : List (String × List Produce.Message)) (state : Publication codecs Unit) :
    PublicationEvent codecs → Prop
  | .call event => Producer.Routed partitionOf topicMessages state.call event
  | .process _ _ => True
  | .append _ _ => True

/-- An answer that was given by the broker has an entry for each place of the request. -/
theorem Truthful.answersInOrder {σ : Type} {transactionalId : Option Text}
    {state : Publication codecs σ} (h : Truthful transactionalId state) :
    AnswersInOrder state.call.history := by
  intro request entries hanswered
  obtain ⟨answer, -, rfl⟩ := h.received request entries hanswered
  exact responseEntries_pairs _ _

/-- What holds along every run of a call whose attempts are routed. -/
structure Published (transactionalId : Option Text) (partitionOf : String → Produce.Message → Int)
    (topicMessages : List (String × List Produce.Message)) (acks : Int) (retries : Nat)
    (state : Publication codecs Unit) : Prop where
  complete : Complete partitionOf topicMessages state.call
  receipted : Receipted transactionalId (pureConfig partitionOf topicMessages acks retries) state

variable {transactionalId : Option Text} {acks : Int} {retries : Nat}
  {state next : Publication codecs Unit}

/-- At first nothing is published. -/
theorem published_initial (logs : Logs codecs) :
    Published transactionalId partitionOf topicMessages acks retries (.initial () logs) :=
  ⟨complete_initial, receipted_initial () logs⟩

/-- Every sound and routed event keeps it. -/
theorem Published.step {event : PublicationEvent codecs} (hacks : acks ≠ 0)
    (h : Published transactionalId partitionOf topicMessages acks retries state)
    (hsound : state.Sound transactionalId event)
    (hrouted : state.Routed partitionOf topicMessages event)
    (hstep : state.step (pureConfig partitionOf topicMessages acks retries) event = some next) :
    Published transactionalId partitionOf topicMessages acks retries next := by
  refine ⟨?_, h.receipted.step hacks (mergeTopicMessages_nodup _) hsound hstep⟩
  cases event with
  | call event =>
      obtain ⟨call, hcall, rfl⟩ := Option.map_eq_some_iff.mp hstep
      exact complete_step hacks h.complete hrouted hcall
  | process request outcome =>
      obtain ⟨logs, -, rfl⟩ := Option.map_eq_some_iff.mp hstep
      exact h.complete
  | append place batch =>
      obtain ⟨logs, -, rfl⟩ := Option.map_eq_some_iff.mp hstep
      exact h.complete

/-- The entry is one without an error, and the log of its partition has all messages that were given
to the call for this partition, in their order, at its offset. -/
def Publishes (transactionalId : Option Text) (partitionOf : String → Produce.Message → Int)
    (topicMessages : List (String × List Produce.Message)) (logs : Logs codecs)
    (entry : ResponseEntry) : Prop :=
  entry.errorCode = 0 ∧ messagesFor partitionOf topicMessages entry.topicName entry.partition ≠ [] ∧
    StoredAt transactionalId (logs (entry.topicName, entry.partition))
      (messagesFor partitionOf topicMessages entry.topicName entry.partition) entry.offset

/-- A routed request carries all messages of a partition, so a reported entry stands for them. -/
theorem Published.publishes
    (h : Published transactionalId partitionOf topicMessages acks retries state)
    {entries : List ResponseEntry} (hreported : Reported state.call.history entries)
    {entry : ResponseEntry} (hentry : entry ∈ entries) :
    Publishes transactionalId partitionOf topicMessages state.logs entry := by
  obtain ⟨hcode, request, data, hdata, hanswered, hpartition, hstored⟩ :=
    h.receipted.reported hreported hentry
  have hacknowledged : request ∈ acknowledged state.call.history :=
    mem_acknowledged.mpr ⟨entries, hanswered, hreported.1⟩
  have hmessages : data.messages =
      messagesFor partitionOf topicMessages entry.topicName entry.partition := by
    rw [(h.complete.acknowledged_grouped entry.topicName).1 data
      (List.mem_flatMap.mpr ⟨request, hacknowledged, hdata⟩), hpartition]
  obtain ⟨hnonempty, -⟩ := h.receipted.carries request
    (h.complete.accounts.answered request _ hanswered) entry.topicName data hdata
  exact ⟨hcode, hmessages ▸ hnonempty, hmessages ▸ hstored⟩

end Published

/-- The one attempt of the sample call is routed. -/
theorem samplePublication_routed : Meets (Publication.step sampleConfig)
    (Publication.Routed (fun _ _ => 3) sampleMessages) (.initial () fun _ => .empty)
      samplePublication := by
  have hattempt : Producer.Routed (fun _ _ => 3) sampleMessages (.initial ())
      (.attempt sampleView ⟨true, none⟩) := by
    decide +kernel
  refine ⟨hattempt, ?_⟩
  split
  · refine meets_of_forall (fun event hmem state => ?_) _
    rcases List.mem_cons.mp hmem with rfl | hlast
    · exact trivial
    · cases List.mem_singleton.mp hlast
      exact trivial
  · trivial

end KafkaJs.Producer
