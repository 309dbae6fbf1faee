import KafkaJs.Consumer.EndToEnd
import KafkaJs.Producer.Accounts

/-!
# The offsets that a call returns

A call with the logs of all partitions. A broker may process a request that the call has produced at
any time, also after the client has given up on it, and more than once. It appends the messages of
each partition as a batch, or knows the batch already, or refuses the messages; its answer may reach
the client late or never. Others append batches, too. A log only grows: what a broker has answered
for is not lost.

`receipts_of_run` holds for any partitioner and whatever happens to the cluster: the offsets that a
resolved call returns are those at which the logs have messages of the call. Whether they account
for all of its messages is another question, see `Delivery`.
-/

namespace KafkaJs.Producer

open Data Cluster Execution Protocol
open Consumer (StoredBatch StoredLog Produced sampleProduced sampleProduced_valid)

variable {codecs : Codecs} {σ : Type}

/-! ## The system -/

/-- What a broker does with the messages of a partition: it appends them as a batch, it has the batch
already, as for an idempotent producer that sends it again, or it refuses them. -/
inductive Outcome (codecs : Codecs) where
  | appended (batch : StoredBatch codecs)
  | known (batch : StoredBatch codecs)
  | refused (errorCode : Int)

/-- The answer for a partition. -/
def Outcome.answer : Outcome codecs → PartitionAnswer
  | .appended batch => ⟨0, batch.firstOffset⟩
  | .known batch => ⟨0, batch.firstOffset⟩
  | .refused errorCode => ⟨errorCode, -1⟩

/-- The logs of the partitions of all topics. -/
abbrev Logs (codecs : Codecs) := String × Int → StoredLog codecs

/-- A call with the logs and the answers that brokers have given. -/
structure Publication (codecs : Codecs) (σ : Type) where
  call : SendState Produce.Message σ
  logs : Logs codecs
  answers : List (Request Produce.Message × (String → Int → PartitionAnswer))

/-- What may happen next: the call goes on, a broker processes a request, or someone else appends a
batch. -/
inductive PublicationEvent (codecs : Codecs) where
  | call (event : SendEvent)
  | process (request : Request Produce.Message) (outcome : String × Int → Outcome codecs)
  | append (place : String × Int) (batch : StoredBatch codecs)

/-- The logs with another batch in one of them, whose offsets are to come after all others. -/
def appendTo (logs : Logs codecs) (place : String × Int) (batch : StoredBatch codecs) :
    Option (Logs codecs) :=
  if h : ∀ stored ∈ (logs place).batches, stored.lastOffset < batch.firstOffset then
    some (Function.update logs place ((logs place).append batch h))
  else none

/-- The logs after a broker has dealt with the messages of a partition. -/
def carryOut (outcome : String × Int → Outcome codecs) (logs : Logs codecs)
    (place : String × Int) : Option (Logs codecs) :=
  match outcome place with
  | .appended batch => appendTo logs place batch
  | .known _ => some logs
  | .refused _ => some logs

namespace Publication

/-- A call that has not started, with given logs. -/
def initial (partitioner : σ) (logs : Logs codecs) : Publication codecs σ :=
  { call := SendState.initial partitioner, logs, answers := [] }

/-- One event. -/
def step (config : SendConfig Produce.Message σ) (state : Publication codecs σ) :
    PublicationEvent codecs → Option (Publication codecs σ)
  | .call event => (Producer.step config state.call event).map fun call => { state with call }
  | .process request outcome =>
      ((pairs request.topicData).foldlM (carryOut outcome) state.logs).map fun logs =>
        { state with
          logs
          answers := state.answers ++
            [(request, fun topic partition => (outcome (topic, partition)).answer)] }
  | .append place batch => (appendTo state.logs place batch).map fun logs => { state with logs }

/-- An event of the call leaves the logs alone. -/
theorem step_call {config : SendConfig Produce.Message σ} {state : Publication codecs σ}
    {event : SendEvent} {call : SendState Produce.Message σ}
    (h : Producer.step config state.call event = some call) :
    state.step config (.call event) = some { state with call } := by
  rw [step, h]
  rfl

end Publication

/-! ## What brokers do -/

/-- A batch that was encoded from these messages. -/
def Encodes (transactionalId : Option Text) (messages : List Produce.Message)
    (batch : StoredBatch codecs) : Prop :=
  ∃ (produced : Produced) (h : produced.Valid codecs), produced.data.messages = messages ∧
    produced.data.transactionalId = transactionalId ∧ produced.stored h = batch

/-- A log has the messages as a batch from an offset on. -/
def StoredAt (transactionalId : Option Text) (log : StoredLog codecs)
    (messages : List Produce.Message) (offset : Int) : Prop :=
  ∃ batch ∈ log.batches, batch.firstOffset = offset ∧ Encodes transactionalId messages batch

/-- What a broker may do with the messages of a partition. -/
def Outcome.Sound (transactionalId : Option Text) (log : StoredLog codecs)
    (messages : List Produce.Message) : Outcome codecs → Prop
  | .appended batch => Encodes transactionalId messages batch
  | .known batch => batch ∈ log.batches ∧ Encodes transactionalId messages batch
  | .refused errorCode => errorCode ≠ 0

/-- Brokers process requests that were produced, and an answer that arrives was given to the
request. -/
def Publication.Sound (transactionalId : Option Text) (state : Publication codecs σ) :
    PublicationEvent codecs → Prop
  | .call (.answer index answer _) =>
      ∀ request ∈ state.call.inFlight[index]?, (request, answer) ∈ state.answers
  | .call _ => True
  | .process request outcome =>
      .produced request ∈ state.call.history ∧
      ∀ topic, ∀ data ∈ partitionsFor topic request.topicData,
        (outcome (topic, data.partition)).Sound transactionalId
          (state.logs (topic, data.partition)) data.messages
  | .append _ _ => True

/-! ## Logs that grow -/

section Logs

variable {logs next : Logs codecs} {outcome : String × Int → Outcome codecs}

/-- Appending a batch lets the logs grow. -/
theorem growsTo_appendTo {place : String × Int} {batch : StoredBatch codecs}
    (h : appendTo logs place batch = some next) :
    (∀ other, (logs other).GrowsTo (next other)) ∧ batch ∈ (next place).batches := by
  unfold appendTo at h
  split at h
  · next hlater =>
      cases h
      refine ⟨fun other => ?_, ?_⟩
      · by_cases hother : other = place
        · subst hother
          rw [Function.update_self]
          exact StoredLog.growsTo_append hlater
        · rw [Function.update_of_ne hother]
          exact .refl _
      · rw [Function.update_self]
        exact List.mem_append_right _ (List.mem_singleton_self batch)
  · cases h

/-- Whatever a broker does with the messages of a partition lets the logs grow. -/
theorem growsTo_carryOut {place : String × Int} (h : carryOut outcome logs place = some next) :
    (∀ other, (logs other).GrowsTo (next other)) ∧
      ∀ batch, outcome place = .appended batch → batch ∈ (next place).batches := by
  unfold carryOut at h
  cases houtcome : outcome place with
  | appended batch =>
      rw [houtcome] at h
      obtain ⟨hgrows, hmem⟩ := growsTo_appendTo h
      refine ⟨hgrows, fun other hother => ?_⟩
      cases hother
      exact hmem
  | known batch =>
      rw [houtcome] at h
      cases h
      exact ⟨fun _ => .refl _, fun _ hother => nomatch hother⟩
  | refused errorCode =>
      rw [houtcome] at h
      cases h
      exact ⟨fun _ => .refl _, fun _ hother => nomatch hother⟩

/-- After a request every batch that was to be appended is in its log. -/
theorem growsTo_process {places : List (String × Int)}
    (h : places.foldlM (carryOut outcome) logs = some next) :
    (∀ other, (logs other).GrowsTo (next other)) ∧
      ∀ place ∈ places, ∀ batch, outcome place = .appended batch →
        batch ∈ (next place).batches := by
  induction places generalizing logs with
  | nil =>
      cases h
      exact ⟨fun _ => .refl _, fun _ hmem => absurd hmem List.not_mem_nil⟩
  | cons place places ih =>
      obtain ⟨middle, hfirst, hrest⟩ := Option.bind_eq_some_iff.mp h
      obtain ⟨hgrowsFirst, hmemFirst⟩ := growsTo_carryOut hfirst
      obtain ⟨hgrows, hmem⟩ := ih hrest
      refine ⟨fun other => (hgrowsFirst other).trans (hgrows other), ?_⟩
      intro other hother batch hbatch
      rcases List.mem_cons.mp hother with rfl | hlater
      · exact (hgrows other).mem_batches (hmemFirst batch hbatch)
      · exact hmem other hlater batch hbatch

/-- What is stored stays stored when the log grows. -/
theorem StoredAt.grow {transactionalId : Option Text} {log grown : StoredLog codecs}
    {messages : List Produce.Message} {offset : Int}
    (h : StoredAt transactionalId log messages offset) (hgrows : log.GrowsTo grown) :
    StoredAt transactionalId grown messages offset := by
  obtain ⟨batch, hmem, hrest⟩ := h
  exact ⟨batch, hgrows.mem_batches hmem, hrest⟩

end Logs

/-! ## Answers are true -/

/-- What was answered without an error is in the logs, and what the call has received was
answered. -/
structure Truthful (transactionalId : Option Text) (state : Publication codecs σ) : Prop where
  stored : ∀ request answer, (request, answer) ∈ state.answers →
    ∀ topic, ∀ data ∈ partitionsFor topic request.topicData,
      (answer topic data.partition).errorCode = 0 →
      StoredAt transactionalId (state.logs (topic, data.partition)) data.messages
        (answer topic data.partition).offset
  received : ∀ request entries, .answered request entries ∈ state.call.history →
    ∃ answer, (request, answer) ∈ state.answers ∧
      entries = responseEntries request.topicData answer

variable {transactionalId : Option Text} {config : SendConfig Produce.Message σ}
  {state next : Publication codecs σ}

/-- At first nothing was answered. -/
theorem truthful_initial (partitioner : σ) (logs : Logs codecs) :
    Truthful transactionalId (Publication.initial partitioner logs) := by
  constructor <;> simp [Publication.initial, SendState.initial]

/-- A sound outcome without an error leaves the messages in the log. -/
theorem Outcome.Sound.storedAt {outcome : Outcome codecs} {log grown : StoredLog codecs}
    {messages : List Produce.Message} (h : outcome.Sound transactionalId log messages)
    (hgrows : log.GrowsTo grown)
    (happended : ∀ batch, outcome = .appended batch → batch ∈ grown.batches)
    (hcode : outcome.answer.errorCode = 0) :
    StoredAt transactionalId grown messages outcome.answer.offset := by
  cases outcome with
  | appended batch => exact ⟨batch, happended batch rfl, rfl, h⟩
  | known batch => exact ⟨batch, hgrows.mem_batches h.1, rfl, h.2⟩
  | refused errorCode => exact absurd hcode h

/-- Every step keeps the answers true. -/
theorem Truthful.step {event : PublicationEvent codecs} (hacks : config.acks ≠ 0)
    (h : Truthful transactionalId state) (hsound : state.Sound transactionalId event)
    (hstep : state.step config event = some next) : Truthful transactionalId next := by
  cases event with
  | call event =>
      obtain ⟨call, hcall, rfl⟩ := Option.map_eq_some_iff.mp hstep
      have htransition := step_cases hacks hcall
      refine ⟨h.stored, fun request entries hmem => ?_⟩
      rcases htransition.mem_history hmem with hold | ⟨_, _, _, _, _, _, -, -, -, hother⟩ |
        ⟨index, answer, recovery, answered, rfl, hrequest, hsame⟩
      · exact h.received request entries hold
      · cases hother
      · cases hsame
        exact ⟨answer, hsound request hrequest, rfl⟩
  | process request outcome =>
      obtain ⟨logs, hlogs, rfl⟩ := Option.map_eq_some_iff.mp hstep
      obtain ⟨hgrows, hmem⟩ := growsTo_process hlogs
      obtain ⟨-, houtcome⟩ := hsound
      refine ⟨?_, ?_⟩
      · intro other answer hanswer topic data hdata hcode
        rcases List.mem_append.mp hanswer with hold | hnew
        · exact (h.stored other answer hold topic data hdata hcode).grow (hgrows _)
        · cases List.mem_singleton.mp hnew
          have hplace : (topic, data.partition) ∈ pairs request.topicData :=
            mem_pairs.mpr ⟨data, hdata, rfl⟩
          exact (houtcome topic data hdata).storedAt (hgrows _)
            (hmem (topic, data.partition) hplace) hcode
      · intro other entries hanswered
        obtain ⟨answer, hanswer, hentries⟩ := h.received other entries hanswered
        exact ⟨answer, List.mem_append_left _ hanswer, hentries⟩
  | append place batch =>
      obtain ⟨logs, hlogs, rfl⟩ := Option.map_eq_some_iff.mp hstep
      obtain ⟨hgrows, -⟩ := growsTo_appendTo hlogs
      refine ⟨fun other answer hanswer topic data hdata hcode => ?_, h.received⟩
      exact (h.stored other answer hanswer topic data hdata hcode).grow (hgrows _)

/-! ## Receipts -/

/-- The call sends parts of what it was given, and its answers are true. -/
structure Receipted (transactionalId : Option Text) (config : SendConfig Produce.Message σ)
    (state : Publication codecs σ) : Prop where
  accounts : Accounts state.call
  carries : CarriesGiven config.topicMessages state.call
  truthful : Truthful transactionalId state

/-- At first nothing was produced. -/
theorem receipted_initial (partitioner : σ) (logs : Logs codecs) :
    Receipted transactionalId config (Publication.initial partitioner logs) := by
  refine ⟨.initial partitioner, fun request hmem => ?_, truthful_initial partitioner logs⟩
  cases hmem

/-- Every sound event keeps the answers receipts. -/
theorem Receipted.step {event : PublicationEvent codecs} (hacks : config.acks ≠ 0)
    (hnodup : (config.topicMessages.map Prod.fst).Nodup)
    (h : Receipted transactionalId config state) (hsound : state.Sound transactionalId event)
    (hstep : state.step config event = some next) : Receipted transactionalId config next := by
  have htruthful := h.truthful.step hacks hsound hstep
  cases event with
  | call event =>
      obtain ⟨call, hcall, rfl⟩ := Option.map_eq_some_iff.mp hstep
      have htransition := step_cases hacks hcall
      exact ⟨h.accounts.step hnodup htransition, h.carries.step hnodup htransition, htruthful⟩
  | process request outcome =>
      obtain ⟨logs, -, rfl⟩ := Option.map_eq_some_iff.mp hstep
      exact ⟨h.accounts, h.carries, htruthful⟩
  | append place batch =>
      obtain ⟨logs, -, rfl⟩ := Option.map_eq_some_iff.mp hstep
      exact ⟨h.accounts, h.carries, htruthful⟩

/-- An entry of a response is one for a partition of the request. -/
theorem mem_responseEntries {topicData : List (TopicData Produce.Message)}
    {answer : String → Int → PartitionAnswer} {entry : ResponseEntry}
    (h : entry ∈ responseEntries topicData answer) :
    ∃ data ∈ partitionsFor entry.topicName topicData, data.partition = entry.partition ∧
      answer entry.topicName entry.partition = ⟨entry.errorCode, entry.offset⟩ := by
  obtain ⟨topic, htopic, hentry⟩ := List.mem_flatMap.mp h
  obtain ⟨data, hdata, rfl⟩ := List.mem_map.mp hentry
  exact ⟨data, List.mem_flatMap.mpr ⟨topic, List.mem_filter.mpr ⟨htopic, decide_eq_true rfl⟩,
    hdata⟩, rfl, rfl⟩

/-- The entry is one without an error for messages that were given to the call, and the log of its
partition has them at its offset. -/
def Receipt (transactionalId : Option Text) (topicMessages : List (String × List Produce.Message))
    (logs : Logs codecs) (entry : ResponseEntry) : Prop :=
  entry.errorCode = 0 ∧ ∃ messages, messages ≠ [] ∧
    messages.Sublist (messagesOf topicMessages entry.topicName) ∧
    StoredAt transactionalId (logs (entry.topicName, entry.partition)) messages entry.offset

/-- A reported entry stands for what a request carried to its partition, and the log of the
partition has that at the offset of the entry. -/
theorem Receipted.reported (h : Receipted transactionalId config state)
    {entries : List ResponseEntry} (hreported : Reported state.call.history entries)
    {entry : ResponseEntry} (hentry : entry ∈ entries) :
    entry.errorCode = 0 ∧ ∃ request, ∃ data ∈ partitionsFor entry.topicName request.topicData,
      .answered request entries ∈ state.call.history ∧ data.partition = entry.partition ∧
      StoredAt transactionalId (state.logs (entry.topicName, entry.partition)) data.messages
        entry.offset := by
  obtain ⟨hsucceeded, request, hanswered⟩ := hreported
  obtain ⟨answer, hanswer, rfl⟩ := h.truthful.received request entries hanswered
  have hcode := hsucceeded entry hentry
  obtain ⟨data, hdata, hpartition, hgiven⟩ := mem_responseEntries hentry
  have hstored := h.truthful.stored request answer hanswer entry.topicName data hdata
  rw [hpartition, hgiven] at hstored
  exact ⟨hcode, request, data, hdata, hanswered, hpartition, hstored hcode⟩

/-- A reported entry is a receipt. -/
theorem Receipted.receipt (h : Receipted transactionalId config state)
    {entries : List ResponseEntry} (hreported : Reported state.call.history entries)
    {entry : ResponseEntry} (hentry : entry ∈ entries) :
    Receipt transactionalId config.topicMessages state.logs entry := by
  obtain ⟨hcode, request, data, hdata, hanswered, -, hstored⟩ := h.reported hreported hentry
  obtain ⟨hmessages, hpart⟩ := h.carries request (h.accounts.answered request _ hanswered)
    entry.topicName data hdata
  exact ⟨hcode, data.messages, hmessages, hpart, hstored⟩

/-- In every run of a call of `sendBatch` with the logs of the partitions, a resolved call returns
receipts, and nothing else. -/
theorem receipts_of_run (partitioner : Partitioner Produce.Message σ)
    (topicMessages : List (String × List Produce.Message)) (acks : Int) (retries : Nat)
    (hacks : acks ≠ 0) (transactionalId : Option Text) (start : σ) (logs : Logs codecs)
    (events : List (PublicationEvent codecs)) (final : Publication codecs σ)
    (hrun : run (Publication.step
      { partitioner, topicMessages := mergeTopicMessages topicMessages, acks, retries })
      (.initial start logs) events = some final)
    (hsound : Meets (Publication.step
      { partitioner, topicMessages := mergeTopicMessages topicMessages, acks, retries })
      (Publication.Sound transactionalId) (.initial start logs) events)
    (result : List (Option ResponseEntry)) (hresolved : final.call.phase = .resolved result) :
    ∃ entries : List ResponseEntry, result = entries.map some ∧
      ∀ entry ∈ entries, Receipt transactionalId topicMessages final.logs entry := by
  have hreceipted := invariant_of_meets
    (fun _ _ _ h hok hstep => Receipted.step hacks (mergeTopicMessages_nodup _) h hok hstep)
    (receipted_initial start logs) hsound hrun
  obtain ⟨entries, hentries, hreported⟩ := hreceipted.accounts.result result hresolved
  refine ⟨entries, hentries, fun entry hentry => ?_⟩
  obtain ⟨reported, hhistory, hmem⟩ := hreported entry hentry
  obtain ⟨hcode, messages, hmessages, hpart, hstored⟩ := hreceipted.receipt hhistory hmem
  rw [messagesOf_mergeTopicMessages] at hpart
  exact ⟨hcode, messages, hmessages, hpart, hstored⟩

/-! ## A run -/

/-- Node 1 leads the partition of the sample batch. -/
def sampleView : ClusterView :=
  { topicMetadata := [("orders", [⟨3, some 1⟩])]
    pool := fun nodeId => if nodeId = 1 then some 1 else none
    connectError := fun _ => none }

def sampleMessages : List (String × List Produce.Message) :=
  [("orders", sampleProduced.data.messages)]

/-- A call that sends the message of the sample batch. -/
def sampleConfig : SendConfig Produce.Message Unit :=
  pureConfig (fun _ _ => 3) sampleMessages (-1) 5

def sampleRequest : Request Produce.Message :=
  { attempt := 0
    broker := ⟨1, 1⟩
    topicData := [⟨"orders", [⟨3, sampleProduced.data.messages⟩]⟩] }

def sampleOutcome : String × Int → Outcome RecordBatch.noCodecs :=
  fun _ => .appended (sampleProduced.stored sampleProduced_valid)

/-- The call produces its request, the broker appends the batch, and the answer arrives. -/
def samplePublication : List (PublicationEvent RecordBatch.noCodecs) :=
  [.call (.attempt sampleView ⟨true, none⟩), .process sampleRequest sampleOutcome,
    .call (.answer 0 (fun topic partition => (sampleOutcome (topic, partition)).answer)
      ⟨true, none⟩)]

/-- The broker of the sample run answers for what it has appended. -/
theorem samplePublication_sound : Meets (Publication.step sampleConfig)
    (Publication.Sound none) (.initial () fun _ => .empty) samplePublication := by
  obtain ⟨call, hcall, hinFlight, hhistory⟩ : ∃ call : SendState Produce.Message Unit,
      Producer.step sampleConfig (.initial ()) (.attempt sampleView ⟨true, none⟩) = some call ∧
        call.inFlight = [sampleRequest] ∧ call.history = [.produced sampleRequest] :=
    ⟨_, rfl, rfl, rfl⟩
  have hattempt : Publication.step sampleConfig (.initial () fun _ => .empty)
      (.call (.attempt sampleView ⟨true, none⟩)) =
        some { call, logs := fun _ => (.empty : StoredLog RecordBatch.noCodecs), answers := [] } :=
    Publication.step_call hcall
  refine (meets_cons hattempt).mpr ⟨trivial, ?_⟩
  have hsound : (⟨call, fun _ => .empty, []⟩ : Publication RecordBatch.noCodecs Unit).Sound none
      (.process sampleRequest sampleOutcome) := by
    refine ⟨?_, fun topic data hdata => ?_⟩
    · rw [hhistory]
      exact List.mem_singleton_self _
    · have hmessages : data.messages = sampleProduced.data.messages := by
        obtain ⟨given, hgiven, hmem⟩ := List.mem_flatMap.mp hdata
        cases List.mem_singleton.mp (List.mem_of_mem_filter hgiven)
        cases List.mem_singleton.mp hmem
        rfl
      exact ⟨sampleProduced, sampleProduced_valid, hmessages.symm, rfl, rfl⟩
  refine ⟨hsound, ?_⟩
  split
  · next processed hprocess =>
      unfold Publication.step at hprocess
      obtain ⟨logs, -, rfl⟩ := Option.map_eq_some_iff.mp hprocess
      refine ⟨fun request hrequest => ?_, ?_⟩
      · rw [hinFlight] at hrequest
        cases hrequest
        exact List.mem_singleton_self _
      · split <;> exact trivial
  · trivial

/-- The run completes, and the call returns offset 0. -/
theorem samplePublication_resolved : ∃ final,
    run (Publication.step sampleConfig) (.initial () fun _ => .empty) samplePublication =
      some final ∧ final.call.phase = .resolved [some ⟨"orders", 3, 0, 0⟩] := by
  have hphase : (run (Publication.step sampleConfig) (.initial () fun _ => .empty)
      samplePublication).map (fun final => final.call.phase) =
        some (.resolved [some ⟨"orders", 3, 0, 0⟩]) := by
    decide +kernel
  exact Option.map_eq_some_iff.mp hphase

/-- The message is at the offset that the call returns. -/
theorem receipts_samplePublication : ∃ final,
    run (Publication.step sampleConfig) (.initial () fun _ => .empty) samplePublication =
      some final ∧
      Receipt none sampleMessages final.logs ⟨"orders", 3, 0, 0⟩ := by
  obtain ⟨final, hrun, hresolved⟩ := samplePublication_resolved
  obtain ⟨entries, hentries, hreceipts⟩ := receipts_of_run (purePartitioner fun _ _ => 3)
    sampleMessages (-1) 5 (by decide) none () (fun _ => .empty) samplePublication final hrun
    samplePublication_sound _ hresolved
  obtain ⟨entry, rfl, hentry⟩ := List.map_eq_singleton_iff.mp hentries.symm
  cases hentry
  exact ⟨final, hrun, hreceipts _ (List.mem_singleton_self _)⟩

end KafkaJs.Producer
