import KafkaJs.Consumer.FetchedBytes

/-!
# Where handled messages come from

The handler gets messages of batches, and batches are made of decoded messages: `Carries.step` says
so of a step of the consumer, and `handled_of_run` of a run over bytes. `mem_messages_of_plain` is
the other direction for records outside of transactions: no filter takes them out of a batch.
-/

namespace KafkaJs.Consumer

open KafkaJs.Data KafkaJs.Execution KafkaJs.Protocol

/-! ## Messages through the consumer -/

/-- All messages that the consumer has are of one kind. -/
structure Carries (P : Message → Prop) (state : State) : Prop where
  queue : ∀ batch ∈ state.queue, ∀ message ∈ batch.messages, P message
  todo : ∀ task ∈ state.todo, ∀ rest ∈ task.rest, ∀ message ∈ rest, P message
  handled : ∀ message ∈ state.handled, P message

section Carries

variable {P : Message → Prop} {config : Config} {state next : State} {event : Event}

/-- A state that carries messages of one kind carries messages of any wider kind. -/
theorem Carries.mono {Q : Message → Prop} (h : Carries P state)
    (himp : ∀ message, P message → Q message) : Carries Q state := by
  refine ⟨fun batch hbatch message hmem => ?_, fun task htask rest hrest message hmem => ?_,
    fun message hmem => ?_⟩
  · exact himp message (h.queue batch hbatch message hmem)
  · exact himp message (h.todo task htask rest hrest message hmem)
  · exact himp message (h.handled message hmem)

/-- The worker goes on with tasks whose messages are of the kind. -/
theorem Carries.goOn (h : Carries P state) {todo : List Task}
    (htodo : ∀ task ∈ todo, ∀ rest ∈ task.rest, ∀ message ∈ rest, P message) :
    Carries P (state.goOn todo) := ⟨h.queue, htodo, h.handled⟩

/-- What is left of the tasks when the first one is done. -/
theorem Carries.tail (h : Carries P state) {task : Task} {todo : List Task}
    (htodo : state.todo = task :: todo) :
    ∀ other ∈ todo, ∀ rest ∈ other.rest, ∀ message ∈ rest, P message :=
  fun other hother => h.todo other (by simp [htodo, hother])

/-- Handling a batch of such messages carries no others. -/
theorem Carries.handleBatch (h : Carries P state) {batch : Batch}
    (hbatch : ∀ message ∈ batch.messages, P message) : Carries P (state.handleBatch batch) := by
  unfold State.handleBatch
  split
  · dsimp only
    split
    · refine ⟨h.queue, fun task htask rest hrest => ?_, h.handled⟩
      rcases List.mem_pair.mp htask with rfl | rfl <;> cases hrest
    · split
      · refine ⟨h.queue, fun task htask rest hrest => ?_, h.handled⟩
        cases List.mem_singleton.mp htask
        cases hrest
      · refine ⟨h.queue, fun task htask rest hrest => ?_, h.handled⟩
        simp only [State.goOn, List.mem_cons, List.not_mem_nil, or_false] at htask
        rcases htask with rfl | rfl | rfl
        · cases hrest
          exact hbatch
        · cases hrest
        · cases hrest
  · exact h

/-- An auto-commit carries no other messages. -/
theorem Carries.autoCommitOffsets (h : Carries P state) {todo : List Task}
    (htodo : ∀ task ∈ todo, ∀ rest ∈ task.rest, ∀ message ∈ rest, P message) :
    Carries P (state.autoCommitOffsets config todo) := by
  unfold State.autoCommitOffsets
  rcases sendCommit_cases config with hnone | ⟨offset, -, hsent⟩
  · rw [hnone]
    exact h.goOn htodo
  · rw [hsent]
    refine ⟨h.queue, fun task htask rest hrest => ?_, h.handled⟩
    rcases List.mem_cons.mp htask with rfl | hold
    · cases hrest
    · exact htodo task hold rest hrest

/-- Only responses bring messages. -/
theorem Carries.step (h : Carries P state) (hplain : event.isResponse = false)
    (hfires : Fires config state event next) : Carries P next := by
  cases hfires with
  | pause | resume | stop | fetch | fetchFails | commitOffsets | commitOffsetsAnswered |
    resolvedSent => exact ⟨h.queue, h.todo, h.handled⟩
  | responseDropped | response => cases hplain
  | @handleBatch batch queue htodo hqueue =>
      have hrest : Carries P { state with queue := queue } :=
        ⟨fun other hother => h.queue other (by simp [hqueue, hother]), h.todo, h.handled⟩
      exact hrest.handleBatch (h.queue batch (by simp [hqueue]))
  | messagesEnd htodo | heartbeatOk htodo | commitUnnecessary htodo => exact h.goOn (h.tail htodo)
  | @nextMessage message rest todo htodo =>
      refine h.goOn fun task htask other hother => ?_
      rcases List.mem_cons.mp htask with rfl | hold
      · exact h.todo (.nextMessage (message :: rest)) (by simp [htodo]) other hother
      · exact h.tail htodo task hold other hother
  | @handlerReturns message rest todo htodo =>
      have hall := h.todo (.handler message rest) (by simp [htodo]) (message :: rest) rfl
      obtain ⟨hmessage, hrest⟩ := List.forall_mem_cons.mp hall
      refine ⟨h.queue, fun task htask other hother => ?_, fun other hother => ?_⟩
      · simp only [State.goOn, List.mem_cons] at htask
        rcases htask with rfl | rfl | rfl | hold
        · cases hother
        · cases hother
        · cases hother
          exact hrest
        · exact h.tail htodo task hold other hother
      · rcases List.mem_append.mp hother with hold | hnew
        · exact h.handled other hold
        · cases List.mem_singleton.mp hnew
          exact hmessage
  | handlerThrows htodo | heartbeatRebalancing htodo =>
      refine h.goOn fun task htask other hother => ?_
      cases List.mem_singleton.mp htask
      cases hother
  | @checkPaused rest todo htodo =>
      refine h.goOn fun task htask other hother => ?_
      split at htask
      · exact h.tail htodo task htask other hother
      · rcases List.mem_cons.mp htask with rfl | hold
        · exact h.todo (.unlessPaused rest) (by simp [htodo]) other hother
        · exact h.tail htodo task hold other hother
  | heartbeatFailed | commitFails => exact h.goOn fun task htask => absurd htask List.not_mem_nil
  | commit htodo => exact h.autoCommitOffsets (h.tail htodo)
  | commitSucceeds htodo => exact ⟨h.queue, h.tail htodo, h.handled⟩
  | nothingSent => exact h

end Carries

/-! ## Messages of a batch -/

section Batches

variable {offset highWatermark : Int} {rawMessages : List Message}
  {abortedTransactions : List AbortedTransaction} {batch : Batch}

/-- The fields of a batch that was made. -/
theorem messages_of_create
    (h : Batch.create offset highWatermark rawMessages abortedTransactions = .ok batch) :
    batch.messagesWithinOffset = rawMessages.filter (fun message => offset ≤ message.offset) ∧
      exposed batch.messagesWithinOffset abortedTransactions = .ok batch.messages := by
  unfold Batch.create at h
  dsimp only at h
  cases hexposed : exposed (rawMessages.filter fun message => offset ≤ message.offset)
      abortedTransactions with
  | error error =>
      rw [hexposed] at h
      cases h
  | ok messages =>
      rw [hexposed] at h
      cases h
      exact ⟨rfl, hexposed⟩

/-- The messages of a batch are among those fetched. -/
theorem mem_rawMessages_of_create
    (h : Batch.create offset highWatermark rawMessages abortedTransactions = .ok batch)
    {message : Message} (hmem : message ∈ batch.messages) : message ∈ rawMessages := by
  obtain ⟨hwithin, hexposed⟩ := messages_of_create h
  have hsub := (exposed_sublist hexposed).subset hmem
  rw [hwithin] at hsub
  exact (List.mem_filter.mp hsub).1

/-- A data record that was not sent in a transaction. -/
def Message.Plain (message : Message) : Prop :=
  message.isControlRecord = false ∧ ∃ producerId, message.batchContext = some ⟨producerId, false⟩

/-- The scan keeps what is not in a transaction. -/
theorem mem_filterFrom_of_plain {messages kept : List Message} {scan : Scan}
    (h : filterFrom scan messages = .ok kept) {message : Message} (hmem : message ∈ messages)
    (hplain : message.Plain) : message ∈ kept := by
  induction messages generalizing scan kept with
  | nil => cases hmem
  | cons first messages ih =>
      unfold filterFrom at h
      split at h
      · cases h
      · next next keep hvisit =>
          cases hrest : filterFrom next messages with
          | error error =>
              rw [hrest] at h
              cases h
          | ok rest =>
              rw [hrest] at h
              cases h
              rcases List.mem_cons.mp hmem with rfl | hlater
              · obtain ⟨-, producerId, hcontext⟩ := hplain
                have hkeep : keep = true := by
                  simp only [Scan.visit, hcontext] at hvisit
                  split at hvisit
                  · cases hvisit
                    rfl
                  · rw [if_neg (by simp)] at hvisit
                    cases hvisit
                    rfl
                rw [hkeep]
                exact List.mem_cons_self
              · have hlast := ih hrest hlater
                cases keep with
                | true => exact List.mem_cons_of_mem _ hlast
                | false => exact hlast

/-- What is plain is exposed. -/
theorem mem_messages_of_plain {log : PartitionLog} (h : batch.IsFetched log) {message : Message}
    (hmem : message ∈ batch.messagesWithinOffset) (hplain : message.Plain) :
    message ∈ batch.messages := by
  obtain ⟨count, abortedTransactions, hcreate⟩ := h
  obtain ⟨-, hexposed⟩ := messages_of_create hcreate
  unfold exposed filterAbortedMessages at hexposed
  have hdata : (!message.isControlRecord) = true := by rw [hplain.1]; rfl
  split at hexposed
  · rw [Except.map, Except.ok.injEq] at hexposed
    rw [← hexposed]
    exact List.mem_filter.mpr ⟨hmem, hdata⟩
  · cases hscan : filterFrom ⟨abortedTransactions, ∅⟩ batch.messagesWithinOffset with
    | error error =>
        rw [hscan] at hexposed
        cases hexposed
    | ok kept =>
        rw [hscan, Except.map, Except.ok.injEq] at hexposed
        rw [← hexposed]
        exact List.mem_filter.mpr ⟨mem_filterFrom_of_plain hscan hmem hplain, hdata⟩

end Batches

/-! ## Over the log -/

section Runs

variable {config : Config} {state next : State} {event : Event}

/-- The worker begins with batches that waited. -/
theorem mem_batches_of_fires (h : Fires config state event next) {batch : Batch}
    (hmem : batch ∈ next.batches) : batch ∈ state.batches ∨ batch ∈ state.queue := by
  cases h with
  | @handleBatch first queue htodo hqueue =>
      unfold State.handleBatch at hmem
      split at hmem
      · have hnew : batch ∈ state.batches ++ [first] := by
          dsimp only at hmem
          split at hmem
          · exact hmem
          · split at hmem <;> exact hmem
        rcases List.mem_append.mp hnew with hold | hfirst
        · exact .inl hold
        · cases List.mem_singleton.mp hfirst
          exact .inr (by simp [hqueue])
      · exact .inl hmem
  | @commit _ task todo htodo =>
      unfold State.autoCommitOffsets at hmem
      rcases @sendCommit_cases state config with hnone | ⟨offset, -, hsent⟩
      · rw [hnone] at hmem
        exact .inl hmem
      · rw [hsent] at hmem
        exact .inl hmem
  | _ => exact .inl hmem

/-- In a run of `Runner` every batch that the worker has begun with is one of the log. -/
theorem safe_of_run {committedOffset : Int} {events : List Event}
    (hrun : run (step config) (State.initial committedOffset) events = some next) :
    Safe config.log next ∧ ∀ batch ∈ next.batches, batch.IsFetched config.log := by
  have hinvariant : (Started next ∧ Safe config.log next) ∧
      ∀ batch ∈ next.batches, batch.IsFetched config.log := by
    refine @invariant_of_run _ _ (step config)
      (fun state => (Started state ∧ Safe config.log state) ∧
        ∀ batch ∈ state.batches, batch.IsFetched config.log) (fun state event next h hstep => ?_)
      _ _ _ ⟨safe_initial committedOffset, fun batch hmem => absurd hmem List.not_mem_nil⟩ hrun
    have hfires := fires_of_step hstep
    refine ⟨safe_step h.1 hfires, fun batch hmem => ?_⟩
    rcases mem_batches_of_fires hfires hmem with hold | hqueue
    · exact h.2 batch hold
    · exact (h.1.2.queue batch hqueue).1
  exact ⟨hinvariant.1.2, hinvariant.2⟩

end Runs

end KafkaJs.Consumer
