import KafkaJs.Consumer.Runner

/-!
# At-least-once consumption

The position of the consumer never passes a record that the user has to see. `Done` says of an
offset that every visible record before it was handled; every step of the runner keeps it for the
resolved offset, for the offsets of fetches and waiting batches, and for the offsets sent by
auto-commits. A batch that carries messages but exposes none moves the position past the fetched
offset; a batch without any message leaves it where it is, since nothing was read.
-/

namespace KafkaJs.Consumer

open Execution

/-- A record that the user has to see: a data record of the log from the starting offset on that
`filterAbortedMessages` kept in every batch handled so far. For data records, to be kept is to be
among the messages of the batch. -/
def Visible (log : PartitionLog) (state : State) (record : Message) : Prop :=
  record ∈ log.records ∧ record.isControlRecord = false ∧
    (∃ start ∈ state.start, start ≤ record.offset) ∧
    ∀ batch ∈ state.batches, record ∈ batch.messagesWithinOffset → record ∈ batch.messages

/-- Every visible record before the offset was passed to the handler, which succeeded. -/
def Done (log : PartitionLog) (state : State) (offset : Int) : Prop :=
  ∀ record, Visible log state record → record.offset < offset → record ∈ state.handled

/-- The resolved offset and every auto-committed offset are done. -/
def AtLeastOnce (log : PartitionLog) (state : State) : Prop :=
  (∀ offset ∈ state.resolvedOffset, Done log state offset.value) ∧
    ∀ offset ∈ state.autoCommitted, Done log state offset.value

/-! ## What is done stays done -/

/-- More batches and more messages are handled, and the start is the same. -/
structure Extends (state next : State) : Prop where
  start : next.start = state.start
  batches : ∀ batch ∈ state.batches, batch ∈ next.batches
  handled : ∀ message ∈ state.handled, message ∈ next.handled

variable {log : PartitionLog} {state next : State}

/-- A state that starts, fetches and hands out the same as another extends it. -/
theorem Extends.refl (hstart : next.start = state.start) (hbatches : next.batches = state.batches)
    (hhandled : next.handled = state.handled) : Extends state next :=
  ⟨hstart, fun _ hmem => hbatches ▸ hmem, fun _ hmem => hhandled ▸ hmem⟩

/-- What a later state regards as visible was visible before. -/
theorem Visible.of_extends (hextends : Extends state next) {record : Message}
    (h : Visible log next record) : Visible log state record := by
  obtain ⟨hmem, hdata, hstart, hkept⟩ := h
  refine ⟨hmem, hdata, ?_, fun batch hbatch => hkept batch (hextends.batches batch hbatch)⟩
  rw [← hextends.start]
  exact hstart

/-- An offset that is done stays done. -/
theorem Done.mono (hextends : Extends state next) {offset : Int} (h : Done log state offset) :
    Done log next offset := fun record hvisible hbefore =>
  hextends.handled record (h record (hvisible.of_extends hextends) hbefore)

/-- The rest of a batch whose messages before were all handled. -/
def Continues (log : PartitionLog) (state : State) (rest : List Message) : Prop :=
  ∃ batch ∈ state.batches, batch.IsFetched log ∧ Done log state batch.fetchedOffset ∧
    ∃ before, batch.messages = before ++ rest ∧ ∀ message ∈ before, message ∈ state.handled

/-- The rest of a batch still continues the log after more steps. -/
theorem Continues.mono (hextends : Extends state next) {rest : List Message}
    (h : Continues log state rest) : Continues log next rest := by
  obtain ⟨batch, hbatch, hfetched, hdone, before, hmessages, hhandled⟩ := h
  exact ⟨batch, hextends.batches batch hbatch, hfetched, hdone.mono hextends, before, hmessages,
    fun message hmem => hextends.handled message (hhandled message hmem)⟩

/-- The messages that a task still has to go through. -/
def Task.rest : Task → Option (List Message)
  | .nextMessage rest | .unlessPaused rest => some rest
  | .handler message rest => some (message :: rest)
  | .heartbeat | .autoCommitOffsets | .autoCommitOffsetsIfNecessary | .awaitCommit _ => none

/-! ## The invariant -/

/-- Nothing happens before the position is initialised. -/
structure Started (state : State) : Prop where
  position : state.start = none ↔ state.resolvedOffset = none
  nothing : state.start = none →
    state.fetches = [] ∧ state.queue = [] ∧ state.todo = [] ∧ state.autoCommitted = []
  nonneg : ∀ start ∈ state.start, 0 ≤ start

/-- Every offset the consumer works with is done, and every batch it works on is one of the
log. -/
structure Safe (log : PartitionLog) (state : State) : Prop where
  resolved : ∀ offset ∈ state.resolvedOffset, Done log state offset.value
  fetches : ∀ offset ∈ state.fetches, Done log state offset
  queue : ∀ batch ∈ state.queue, batch.IsFetched log ∧ Done log state batch.fetchedOffset
  todo : ∀ task ∈ state.todo, ∀ rest ∈ task.rest, Continues log state rest
  autoCommitted : ∀ offset ∈ state.autoCommitted, Done log state offset.value

/-- A step that extends the state is safe if whatever it adds is. -/
theorem Safe.extend (h : Safe log state) (hextends : Extends state next)
    (hresolved : next.resolvedOffset = state.resolvedOffset ∨
      ∀ offset ∈ next.resolvedOffset, Done log next offset.value)
    (hfetches : ∀ offset ∈ next.fetches, offset ∈ state.fetches)
    (hqueue : ∀ batch ∈ next.queue, batch ∈ state.queue ∨
      batch.IsFetched log ∧ Done log next batch.fetchedOffset)
    (htodo : ∀ task ∈ next.todo, ∀ rest ∈ task.rest,
      (∃ old ∈ state.todo, old.rest = some rest) ∨ Continues log next rest)
    (hautoCommitted : ∀ offset ∈ next.autoCommitted, offset ∈ state.autoCommitted ∨
      Done log next offset.value) : Safe log next := by
  refine ⟨?_, ?_, ?_, ?_, ?_⟩
  · intro offset hoffset
    rcases hresolved with hsame | hnew
    · exact (h.resolved offset (hsame ▸ hoffset)).mono hextends
    · exact hnew offset hoffset
  · exact fun offset hmem => (h.fetches offset (hfetches offset hmem)).mono hextends
  · intro batch hmem
    rcases hqueue batch hmem with hold | hnew
    · exact ⟨(h.queue batch hold).1, (h.queue batch hold).2.mono hextends⟩
    · exact hnew
  · intro task hmem rest hrest
    rcases htodo task hmem rest hrest with ⟨old, hold, holdRest⟩ | hnew
    · exact (h.todo old hold rest holdRest).mono hextends
    · exact hnew
  · intro offset hmem
    rcases hautoCommitted offset hmem with hold | hnew
    · exact (h.autoCommitted offset hold).mono hextends
    · exact hnew

/-! ## Steps of the worker -/

/-- Every data record up to the end of a handled batch was handled before the batch or is within
it, so it is visible only if the batch exposes it. -/
theorem mem_messages_of_visible {batch : Batch} (hbatch : batch ∈ state.batches)
    (hfetched : batch.IsFetched log) {record message : Message} (hvisible : Visible log state record)
    (hfrom : batch.fetchedOffset ≤ record.offset) (hmessage : message ∈ batch.messages)
    (hto : record.offset ≤ message.offset) : record ∈ batch.messages := by
  obtain ⟨-, -, hwithin, hmessages⟩ := hfetched.fields
  have hraw : message ∈ batch.rawMessages := by
    have hmem := hmessages.subset hmessage
    rw [hwithin] at hmem
    exact (List.mem_filter.mp hmem).1
  exact hvisible.2.2.2 batch hbatch (hfetched.mem_within hvisible.1 hfrom hraw (Or.inl hto))

/-- The handler succeeded for the next message of a batch. -/
theorem Continues.handle {message : Message} {rest : List Message}
    (h : Continues log state (message :: rest)) (hextends : Extends state next)
    (hhandled : message ∈ next.handled) :
    Done log next (message.offset + 1) ∧ Continues log next rest := by
  obtain ⟨batch, hbatch, hfetched, hdone, before, hmessages, hbefore⟩ := h.mono hextends
  refine ⟨?_, batch, hbatch, hfetched, hdone, before ++ [message], by simp [hmessages], ?_⟩
  · intro record hvisible hlt
    by_cases hold : record.offset < batch.fetchedOffset
    · exact hdone record hvisible hold
    · -- the record is one of the messages of the batch, and not one after `message`
      have hmember : message ∈ batch.messages := by simp [hmessages]
      have hmem := mem_messages_of_visible hbatch hfetched hvisible (by omega) hmember (by omega)
      have hincreasing := hfetched.increasing
      rw [hmessages, List.pairwise_append, List.pairwise_cons] at hincreasing
      rw [hmessages, List.mem_append, List.mem_cons] at hmem
      rcases hmem with hearlier | rfl | hlater
      · exact hbefore record hearlier
      · exact hhandled
      · have hafter := hincreasing.2.1.1 record hlater
        omega
  · intro other hother
    rcases List.mem_append.mp hother with hearlier | hself
    · exact hbefore other hearlier
    · cases List.mem_singleton.mp hself
      exact hhandled

/-- A batch that carries messages but exposes none: no visible record lies before its end. -/
theorem done_lastOffset {batch : Batch} (hbatch : batch ∈ state.batches)
    (hfetched : batch.IsFetched log) (hdone : Done log state batch.fetchedOffset)
    (hraw : batch.rawMessages ≠ []) (hempty : batch.messages = []) :
    batch.fetchedOffset ≤ batch.lastOffset ∧
    (∀ record, Visible log state record → batch.fetchedOffset ≤ record.offset →
      batch.lastOffset < record.offset) ∧
    Done log state (batch.lastOffset + 1) := by
  obtain ⟨hle, hcovers⟩ := hfetched.lastOffset_covers hraw
  have hnone : ∀ record, Visible log state record → batch.fetchedOffset ≤ record.offset →
      batch.lastOffset < record.offset := by
    intro record hvisible hfrom
    by_contra hnot
    have hmem := hvisible.2.2.2 batch hbatch (hcovers record hvisible.1 hfrom (by omega))
    rw [hempty] at hmem
    cases hmem
  refine ⟨hle, hnone, fun record hvisible hlt => ?_⟩
  by_cases hold : record.offset < batch.fetchedOffset
  · exact hdone record hvisible hold
  · have hafter := hnone record hvisible (by omega)
    omega

/-- `handleBatch` begins with a batch of the log. -/
theorem Safe.handleBatch (h : Safe log state) {batch : Batch} (hfetched : batch.IsFetched log)
    (hdone : Done log state batch.fetchedOffset) : Safe log (state.handleBatch batch) := by
  have hextends : ∀ {next : State}, next.start = state.start →
      next.batches = state.batches ++ [batch] → next.handled = state.handled →
      Extends state next := by
    intro next hstart hbatches hhandled
    refine ⟨hstart, fun other hother => ?_, fun message hmem => hhandled ▸ hmem⟩
    rw [hbatches]
    exact List.mem_append_left _ hother
  have hnow : ∀ {next : State}, next.start = state.start →
      next.batches = state.batches ++ [batch] → next.handled = state.handled →
      batch ∈ next.batches ∧ Done log next batch.fetchedOffset := by
    intro next hstart hbatches hhandled
    exact ⟨by simp [hbatches], hdone.mono (hextends hstart hbatches hhandled)⟩
  unfold State.handleBatch
  split
  · dsimp only
    split
    · next hfiltered =>
        simp only [Batch.isEmptyDueToFiltering, Batch.isEmpty, Bool.and_eq_true,
          List.isEmpty_iff, Bool.not_eq_true', List.isEmpty_eq_false_iff] at hfiltered
        refine h.extend (hextends rfl rfl rfl) (Or.inr fun offset hoffset => ?_)
          (fun _ hmem => hmem) (fun _ hmem => Or.inl hmem) ?_ (fun _ hmem => Or.inl hmem)
        -- nothing in the batch is visible, so its last offset is done as soon as its first one is
        · cases hoffset
          obtain ⟨hmem, hdoneNow⟩ := @hnow ((State.resolveOffset
            { state with batches := state.batches ++ [batch] } batch.lastOffset).goOn _) rfl rfl rfl
          exact (done_lastOffset hmem hfetched hdoneNow hfiltered.2 hfiltered.1).2.2
        · intro task hmem rest hrest
          rcases List.mem_pair.mp hmem with rfl | rfl <;> cases hrest
    · split
      · refine h.extend (hextends rfl rfl rfl) (Or.inl rfl) (fun _ hmem => hmem)
          (fun _ hmem => Or.inl hmem) ?_ (fun _ hmem => Or.inl hmem)
        intro task hmem rest hrest
        cases List.mem_singleton.mp hmem
        cases hrest
      · refine h.extend (hextends rfl rfl rfl) (Or.inl rfl) (fun _ hmem => hmem)
          (fun _ hmem => Or.inl hmem) ?_ (fun _ hmem => Or.inl hmem)
        intro task hmem rest hrest
        obtain ⟨hbatch, hdoneNow⟩ := @hnow (State.goOn
          { state with batches := state.batches ++ [batch] } _) rfl rfl rfl
        refine Or.inr ⟨batch, hbatch, hfetched, hdoneNow, [], ?_, by simp⟩
        simp only [State.goOn, List.mem_cons, List.not_mem_nil, or_false] at hmem
        rcases hmem with rfl | rfl | rfl
        · cases hrest
          rfl
        · cases hrest
        · cases hrest
  · exact h

/-- The worker goes on with tasks that it had already. -/
theorem Safe.goOn (h : Safe log state) {todo : List Task}
    (htodo : ∀ task ∈ todo, ∀ rest ∈ task.rest, ∃ old ∈ state.todo, old.rest = some rest) :
    Safe log (state.goOn todo) :=
  h.extend (Extends.refl rfl rfl rfl) (Or.inl rfl) (fun _ hmem => hmem) (fun _ hmem => Or.inl hmem)
    (fun task hmem rest hrest => Or.inl (htodo task hmem rest hrest)) (fun _ hmem => Or.inl hmem)

/-- Sending the resolved offset. -/
theorem Safe.sent (h : Safe log state) {offset : StoredOffset}
    (hoffset : offset ∈ state.resolvedOffset) :
    Safe log { state with autoCommitted := state.autoCommitted ++ [offset] } := by
  refine h.extend (Extends.refl rfl rfl rfl) (Or.inl rfl) (fun _ hmem => hmem)
    (fun _ hmem => Or.inl hmem) (fun task hmem rest hrest => Or.inl ⟨task, hmem, hrest⟩) ?_
  intro other hother
  rcases List.mem_append.mp hother with hold | hnew
  · exact Or.inl hold
  · cases List.mem_singleton.mp hnew
    exact Or.inr ((h.resolved offset hoffset).mono (Extends.refl rfl rfl rfl))

/-- An auto-commit of the worker. -/
theorem Safe.autoCommitOffsets (h : Safe log state) (config : Config) {todo : List Task}
    (htodo : ∀ task ∈ todo, task ∈ state.todo) :
    Safe log (state.autoCommitOffsets config todo) := by
  unfold State.autoCommitOffsets
  rcases sendCommit_cases config with hnone | ⟨offset, hoffset, hsent⟩
  · rw [hnone]
    exact h.goOn fun task hmem rest hrest => ⟨task, htodo task hmem, hrest⟩
  · rw [hsent]
    refine (h.sent hoffset).goOn fun task hmem rest hrest => ?_
    rcases List.mem_cons.mp hmem with rfl | hold
    · cases hrest
    · exact ⟨task, htodo task hold, hrest⟩

/-! ## Steps of the consumer -/

/-- `nextOffset` gives an offset that is done. -/
theorem nextOffset_safe (hstarted : Started state) (h : Safe log state)
    (hcommitted : state.committedOffset ≠ none) :
    Started state.nextOffset.1 ∧ Safe log state.nextOffset.1 ∧
      Done log state.nextOffset.1 state.nextOffset.2 := by
  cases hresolved : state.resolvedOffset with
  | some offset =>
      obtain ⟨start, hstart⟩ : ∃ start, state.start = some start := by
        rw [← Option.ne_none_iff_exists']
        intro hnone
        simp [hstarted.position.mp hnone] at hresolved
      have hsame : state.nextOffset.1 = state := by
        simp only [State.nextOffset, hresolved, hstart, Option.getD_some]
        rw [← hresolved, ← hstart]
      rw [hsame]
      refine ⟨hstarted, h, ?_⟩
      simp only [State.nextOffset, hresolved, isInvalidOffset]
      split
      -- a negative position reads from zero, and no visible record lies before that
      · intro record hvisible hbefore
        obtain ⟨first, hfirst, hle⟩ := hvisible.2.2.1
        have hnonneg := hstarted.nonneg first hfirst
        omega
      · exact h.resolved offset hresolved
  | none =>
      obtain ⟨offset, hoffset⟩ := Option.ne_none_iff_exists'.mp hcommitted
      have hnone := hstarted.position.mpr hresolved
      obtain ⟨hfetches, hqueue, htodo, hautoCommitted⟩ := hstarted.nothing hnone
      have hnext : state.nextOffset = ({ state with
          resolvedOffset := some offset
          start := some (if offset.value < 0 then 0 else offset.value) },
          if offset.value < 0 then 0 else offset.value) := by
        simp [State.nextOffset, hresolved, hoffset, hnone, isInvalidOffset]
      -- the consumer starts here: nothing that is visible lies before its start
      have hdone : ∀ limit, limit ≤ (if offset.value < 0 then 0 else offset.value) →
          Done log state.nextOffset.1 limit := by
        intro limit hlimit record hvisible hbefore
        obtain ⟨first, hfirst, hle⟩ := hvisible.2.2.1
        simp only [hnext] at hfirst
        cases hfirst
        omega
      refine ⟨⟨?_, ?_, ?_⟩, ⟨?_, ?_, ?_, ?_, ?_⟩, ?_⟩
      · simp [hnext]
      · simp [hnext]
      · intro start hstart
        simp only [hnext] at hstart
        cases hstart
        split <;> omega
      · intro other hother
        refine hdone other.value ?_
        simp only [hnext] at hother
        cases hother
        split <;> omega
      · simp [hnext, hfetches]
      · simp [hnext, hqueue]
      · simp [hnext, htodo]
      · simp [hnext, hautoCommitted]
      · rw [show state.nextOffset.2 = if offset.value < 0 then 0 else offset.value by rw [hnext]]
        exact hdone _ le_rfl

/-- What a step adds to the offsets once the position is initialised does not matter to
`Started`. -/
theorem Started.keep (h : Started state) (hstart : next.start = state.start)
    (hposition : state.start ≠ none → next.resolvedOffset ≠ none)
    (hnothing : state.start = none → next.resolvedOffset = none ∧ next.fetches = [] ∧
      next.queue = [] ∧ next.todo = [] ∧ next.autoCommitted = []) : Started next := by
  refine ⟨?_, ?_, ?_⟩
  · rw [hstart]
    refine ⟨fun hnone => (hnothing hnone).1, fun hresolved => ?_⟩
    by_contra hsome
    exact hposition hsome hresolved
  · rw [hstart]
    exact fun hnone => (hnothing hnone).2
  · rw [hstart]
    exact h.nonneg

/-- A step that has a task or a fetch to work with finds the position initialised. -/
theorem Started.start_ne_none (h : Started state)
    (hsome : state.fetches ≠ [] ∨ state.queue ≠ [] ∨ state.todo ≠ []) : state.start ≠ none := by
  intro hnone
  obtain ⟨hfetches, hqueue, htodo, -⟩ := h.nothing hnone
  rcases hsome with hnot | hnot | hnot
  · exact hnot hfetches
  · exact hnot hqueue
  · exact hnot htodo

/-- A consumer that has started from some offset has resolved one. -/
theorem Started.resolved_ne_none (h : Started state) (hstart : state.start ≠ none) :
    state.resolvedOffset ≠ none := fun hnone => hstart (h.position.mpr hnone)

/-- A step of the worker, which has tasks, keeps the position initialised. -/
theorem Started.work (h : Started state)
    (hsome : state.fetches ≠ [] ∨ state.queue ≠ [] ∨ state.todo ≠ [])
    (hstart : next.start = state.start)
    (hresolved : next.resolvedOffset = state.resolvedOffset ∨ next.resolvedOffset ≠ none) :
    Started next := by
  have hne := h.start_ne_none hsome
  refine h.keep hstart (fun _ => ?_) fun hnone => absurd hnone hne
  rcases hresolved with hsame | hnot
  · rw [hsame]
    exact h.resolved_ne_none hne
  · exact hnot

/-- The start is set and stays; the position stays initialised. -/
theorem handleBatch_frame (batch : Batch) :
    (state.handleBatch batch).start = state.start ∧
    ((state.handleBatch batch).resolvedOffset = state.resolvedOffset ∨
      (state.handleBatch batch).resolvedOffset ≠ none) := by
  unfold State.handleBatch
  split
  · dsimp only
    split
    · exact ⟨rfl, Or.inr (by simp [State.goOn, State.resolveOffset])⟩
    · split <;> exact ⟨rfl, Or.inl rfl⟩
  · exact ⟨rfl, Or.inl rfl⟩

/-- An auto-commit moves neither the start nor the resolved offset. -/
theorem autoCommitOffsets_frame (config : Config) (todo : List Task) :
    (state.autoCommitOffsets config todo).start = state.start ∧
    (state.autoCommitOffsets config todo).resolvedOffset = state.resolvedOffset := by
  unfold State.autoCommitOffsets
  rcases sendCommit_cases config with hnone | ⟨offset, -, hsent⟩
  · rw [hnone]
    exact ⟨rfl, rfl⟩
  · rw [hsent]
    exact ⟨rfl, rfl⟩

/-- The worker leaves a task for tasks that it had already, or that have no messages. -/
theorem goOn_step (h : Started state ∧ Safe log state) (hsome : state.todo ≠ []) {todo : List Task}
    (htodo : ∀ task ∈ todo, ∀ rest ∈ task.rest, ∃ old ∈ state.todo, old.rest = some rest) :
    Started (state.goOn todo) ∧ Safe log (state.goOn todo) :=
  ⟨h.1.work (Or.inr (Or.inr hsome)) rfl (Or.inl rfl), h.2.goOn htodo⟩

/-- The handler returned: the offset of its message is done, and the rest of the batch goes on. -/
theorem Safe.handlerReturns (hsafe : Safe log state) {message : Message} {rest : List Message}
    {todo : List Task} (htodo : state.todo = .handler message rest :: todo)
    (hnext : next = (({ state with handled := state.handled ++ [message] } : State).resolveOffset
      message.offset).goOn
        (.heartbeat :: .autoCommitOffsetsIfNecessary :: .unlessPaused rest :: todo)) :
    Safe log next := by
  have hcontinues := hsafe.todo (.handler message rest) (by simp [htodo]) (message :: rest) rfl
  have hextends : Extends state next := by
    rw [hnext]
    exact ⟨rfl, fun _ hmem => hmem, fun other hmem => List.mem_append_left _ hmem⟩
  obtain ⟨hdone, hrest⟩ := hcontinues.handle hextends
    (by simp [hnext, State.goOn, State.resolveOffset])
  subst hnext
  refine hsafe.extend hextends (Or.inr fun offset hoffset => ?_)
    (fun _ hmem => hmem) (fun _ hmem => Or.inl hmem) ?_ (fun _ hmem => Or.inl hmem)
  · cases hoffset
    exact hdone
  · intro task hmem other hother
    simp only [State.goOn, List.mem_cons] at hmem
    rcases hmem with rfl | rfl | rfl | hold
    · cases hother
    · cases hother
    · cases hother
      exact Or.inr hrest
    · exact Or.inl ⟨task, by simp [htodo, hold], hother⟩

/-- A fetch that has ended is forgotten. -/
theorem Safe.eraseFetch (hsafe : Safe log state) (index : Nat) :
    Safe log { state with fetches := state.fetches.eraseIdx index } :=
  ⟨hsafe.resolved, fun offset hmem => hsafe.fetches offset (List.mem_of_mem_eraseIdx hmem),
    hsafe.queue, hsafe.todo, hsafe.autoCommitted⟩

/-- Every step keeps the invariant. -/
theorem safe_step {config : Config} {event : Event} (h : Started state ∧ Safe config.log state)
    (hfires : Fires config state event next) : Started next ∧ Safe config.log next := by
  have hstarted := h.1
  have hsafe := h.2
  cases hfires with
  | pause | resume | stop | commitOffsets | commitOffsetsAnswered =>
      exact ⟨⟨hstarted.position, hstarted.nothing, hstarted.nonneg⟩,
        ⟨hsafe.resolved, hsafe.fetches, hsafe.queue, hsafe.todo, hsafe.autoCommitted⟩⟩
  | fetch hactive =>
      -- the first fetch fixes the start of the consumer
      obtain ⟨hnext, hnextSafe, hdone⟩ := nextOffset_safe hstarted hsafe hactive.2.2
      have hstart : state.nextOffset.1.start ≠ none := by simp [State.nextOffset]
      refine ⟨⟨hnext.position, fun hnone => absurd hnone hstart, hnext.nonneg⟩,
        ⟨hnextSafe.resolved, ?_, hnextSafe.queue, hnextSafe.todo, hnextSafe.autoCommitted⟩⟩
      intro offset hmem
      rcases List.mem_append.mp hmem with hold | hnew
      · exact hnextSafe.fetches offset hold
      · cases List.mem_singleton.mp hnew
        exact hdone
  | @fetchFails index hindex =>
      have hsome : state.fetches ≠ [] := List.ne_nil_of_length_pos (by omega)
      exact ⟨hstarted.work (Or.inl hsome) rfl (Or.inl rfl), hsafe.eraseFetch index⟩
  | @responseDropped index _ _ _ _ hoffset =>
      have hsome := List.ne_nil_of_mem (List.mem_of_getElem? hoffset)
      exact ⟨hstarted.work (Or.inl hsome) rfl (Or.inl rfl), hsafe.eraseFetch index⟩
  | @response index _ _ _ offset batch hoffset hcreate =>
      have hmem := List.mem_of_getElem? hoffset
      have herased := hsafe.eraseFetch index
      refine ⟨hstarted.work (Or.inl (List.ne_nil_of_mem hmem)) rfl (Or.inl rfl),
        ⟨herased.resolved, herased.fetches, ?_, herased.todo, herased.autoCommitted⟩⟩
      intro other hother
      rcases List.mem_append.mp hother with hold | hnew
      · exact hsafe.queue other hold
      · cases List.mem_singleton.mp hnew
        obtain ⟨hfetched, hfetchedOffset⟩ := Batch.isFetched_of_create hcreate
        exact ⟨hfetched, hfetchedOffset ▸ hsafe.fetches offset hmem⟩
  | @handleBatch batch queue htodo hqueue =>
      have hsome : state.queue ≠ [] := by simp [hqueue]
      obtain ⟨hfetched, hdone⟩ := hsafe.queue batch (by simp [hqueue])
      have hrest : Safe config.log { state with queue := queue } :=
        ⟨hsafe.resolved, hsafe.fetches, fun other hother =>
          hsafe.queue other (by simp [hqueue, hother]), hsafe.todo, hsafe.autoCommitted⟩
      obtain ⟨hstart, hposition⟩ := @handleBatch_frame { state with queue := queue } batch
      exact ⟨hstarted.work (Or.inr (Or.inl hsome)) hstart hposition,
        hrest.handleBatch hfetched hdone⟩
  | messagesEnd htodo =>
      exact goOn_step h (by simp [htodo]) fun task hmem rest hrest =>
        ⟨task, by simp [htodo, hmem], hrest⟩
  | @nextMessage message rest todo htodo =>
      refine goOn_step h (by simp [htodo]) fun task hmem other hother => ?_
      rcases List.mem_cons.mp hmem with rfl | hold
      · exact ⟨.nextMessage (message :: rest), by simp [htodo], hother⟩
      · exact ⟨task, by simp [htodo, hold], hother⟩
  | handlerReturns htodo =>
      exact ⟨hstarted.work (Or.inr (Or.inr (by simp [htodo]))) rfl
        (Or.inr (by simp [State.goOn, State.resolveOffset])), hsafe.handlerReturns htodo rfl⟩
  | handlerThrows htodo | heartbeatRebalancing htodo =>
      refine goOn_step h (by simp [htodo]) fun task hmem other hother => ?_
      cases List.mem_singleton.mp hmem
      cases hother
  | @checkPaused rest todo htodo =>
      refine goOn_step h (by simp [htodo]) fun task hmem other hother => ?_
      split at hmem
      · exact ⟨task, by simp [htodo, hmem], hother⟩
      · rcases List.mem_cons.mp hmem with rfl | hold
        · exact ⟨.unlessPaused rest, by simp [htodo], hother⟩
        · exact ⟨task, by simp [htodo, hold], hother⟩
  | heartbeatOk htodo | commitUnnecessary htodo =>
      exact goOn_step h (by simp [htodo]) fun task hmem other hother =>
        ⟨task, by simp [htodo, hmem], hother⟩
  | heartbeatFailed htodo | commitFails htodo =>
      exact goOn_step h (by simp [htodo]) fun task hmem => absurd hmem List.not_mem_nil
  | @commit _ task todo htodo =>
      obtain ⟨hstart, hresolved⟩ := @autoCommitOffsets_frame state config todo
      exact ⟨hstarted.work (Or.inr (Or.inr (by simp [htodo]))) hstart (Or.inl hresolved),
        hsafe.autoCommitOffsets config fun task hmem => by simp [htodo, hmem]⟩
  | @commitSucceeds offset todo htodo =>
      obtain ⟨hnext, hnextSafe⟩ := goOn_step h (by simp [htodo])
        (show ∀ task ∈ todo, ∀ rest ∈ task.rest, ∃ old ∈ state.todo, old.rest = some rest from
          fun task hmem rest hrest => ⟨task, by simp [htodo, hmem], hrest⟩)
      exact ⟨⟨hnext.position, hnext.nothing, hnext.nonneg⟩, ⟨hnextSafe.resolved,
        hnextSafe.fetches, hnextSafe.queue, hnextSafe.todo, hnextSafe.autoCommitted⟩⟩
  | nothingSent => exact h
  | resolvedSent htodo hoffset =>
      have hsentSafe := hsafe.sent hoffset
      exact ⟨hstarted.work (Or.inr (Or.inr (by simp [htodo]))) rfl (Or.inl rfl),
        ⟨hsentSafe.resolved, hsentSafe.fetches, hsentSafe.queue, hsentSafe.todo,
          hsentSafe.autoCommitted⟩⟩

/-! ## Runs of the consumer -/

/-- A new consumer is started and safe. -/
theorem safe_initial (committedOffset : Int) :
    Started (State.initial committedOffset) ∧ Safe log (State.initial committedOffset) := by
  refine ⟨⟨by simp [State.initial], by simp [State.initial], by simp [State.initial]⟩, ?_⟩
  refine ⟨?_, ?_, ?_, ?_, ?_⟩ <;> simp [State.initial]

/-- Handling a batch that carries messages but exposes none moves the position past the fetched
offset, and past no visible record. -/
theorem handleBatch_advances {batch : Batch} (hfetched : batch.IsFetched log)
    (hdone : Done log state batch.fetchedOffset) (hrunning : state.running = true)
    (hraw : batch.rawMessages ≠ []) (hempty : batch.messages = []) :
    ∃ offset, (state.handleBatch batch).resolvedOffset = some ⟨offset, none⟩ ∧
      batch.fetchedOffset < offset ∧
      ∀ record, Visible log (state.handleBatch batch) record →
        batch.fetchedOffset ≤ record.offset → offset ≤ record.offset := by
  have hfiltered : batch.isEmptyDueToFiltering = true := by
    simp [Batch.isEmptyDueToFiltering, Batch.isEmpty, hempty, hraw]
  have hhandled : state.handleBatch batch = (State.resolveOffset
      { state with batches := state.batches ++ [batch] } batch.lastOffset).goOn
        [.autoCommitOffsetsIfNecessary, .heartbeat] := by
    simp [State.handleBatch, hrunning, hfiltered]
  have hextends : Extends state (state.handleBatch batch) := by
    rw [hhandled]
    exact ⟨rfl, fun _ hmem => List.mem_append_left _ hmem, fun _ hmem => hmem⟩
  have hbatch : batch ∈ (state.handleBatch batch).batches := by
    simp [hhandled, State.goOn, State.resolveOffset]
  obtain ⟨hle, hnone, -⟩ :=
    done_lastOffset hbatch hfetched (hdone.mono hextends) hraw hempty
  refine ⟨batch.lastOffset + 1, by simp [hhandled, State.goOn, State.resolveOffset], by omega, ?_⟩
  intro record hvisible hfrom
  have hafter := hnone record hvisible hfrom
  omega

/-- In every run, the resolved offset and every auto-committed offset come after no visible
record that was not handled; and a batch that carries messages but no visible one moves the
position past the fetched offset, and past no visible record. -/
theorem eachMessage_atLeastOnce (config : Config) (committedOffset : Int) (events : List Event)
    (final : State)
    (hrun : run (step config) (State.initial committedOffset) events = some final) :
    AtLeastOnce config.log final ∧
    ∀ batch queue next, final.queue = batch :: queue → final.running = true →
      batch.rawMessages ≠ [] → batch.messages = [] →
      step config final .handleBatch = some next →
      ∃ offset, next.resolvedOffset = some ⟨offset, none⟩ ∧ batch.fetchedOffset < offset ∧
        ∀ record, Visible config.log next record → batch.fetchedOffset ≤ record.offset →
          offset ≤ record.offset := by
  have hinvariant : Started final ∧ Safe config.log final :=
    invariant_of_run (fun _ _ _ h hstep => safe_step h (fires_of_step hstep))
      (safe_initial committedOffset) hrun
  refine ⟨⟨hinvariant.2.resolved, hinvariant.2.autoCommitted⟩, ?_⟩
  intro batch queue next hqueue hrunning hraw hempty hstep
  obtain ⟨hfetched, hdone⟩ := hinvariant.2.queue batch (by simp [hqueue])
  cases fires_of_step hstep with
  | handleBatch htodo hsame =>
      cases hqueue.symm.trans hsame
      exact @handleBatch_advances _ { final with queue := queue } _ hfetched hdone hrunning
        hraw hempty

/-- A data record and the control record that commits its transaction. -/
def committedTransaction : PartitionLog :=
  { batches := [{ baseOffset := 0
                  lastOffset := 0
                  records := [⟨0, some [107], false, some ⟨1, true⟩⟩]
                  range := by decide
                  within := by decide
                  increasing := by decide },
                { baseOffset := 1
                  lastOffset := 1
                  records := [⟨1, some [0, 0, 0, 1], true, some ⟨1, true⟩⟩]
                  range := by decide
                  within := by decide
                  increasing := by decide }]
    ordered := by simp }

/-- The data record is fetched and handled; the control record is fetched next and waits for the
worker. -/
def consumeTransaction : List Event :=
  [.fetch, .response 0 1 [] 2, .handleBatch, .nextMessage, .handlerReturns, .heartbeat .ok,
    .commit true, .commitAnswered true, .checkPaused, .nextMessage, .commit true, .heartbeat .ok,
    .fetch, .response 0 1 [] 2]

/-- The position passes the data record once it is handled, and the control record after it. -/
theorem eachMessage_atLeastOnce_transaction :
    ∃ final next,
      run (step ⟨committedTransaction, true⟩) (State.initial 0) consumeTransaction = some final ∧
      final.autoCommitted = [⟨1, none⟩] ∧ AtLeastOnce committedTransaction final ∧
      step ⟨committedTransaction, true⟩ final .handleBatch = some next ∧
      ∃ offset, next.resolvedOffset = some ⟨offset, none⟩ ∧ 1 < offset := by
  have hfinal : ∃ final, run (step ⟨committedTransaction, true⟩) (State.initial 0)
      consumeTransaction = some final := Option.isSome_iff_exists.mp (by decide)
  obtain ⟨final, hrun⟩ := hfinal
  have hstate : final.running = true ∧ final.autoCommitted = [⟨1, none⟩] ∧ final.queue =
      [⟨1, 2, [⟨1, some [0, 0, 0, 1], true, some ⟨1, true⟩⟩],
        [⟨1, some [0, 0, 0, 1], true, some ⟨1, true⟩⟩], []⟩] ∧
      (step ⟨committedTransaction, true⟩ final .handleBatch).isSome := by
    have hmap : (run (step ⟨committedTransaction, true⟩) (State.initial 0) consumeTransaction).all
        (fun final => final.running = true ∧ final.autoCommitted = [⟨1, none⟩] ∧ final.queue =
          [⟨1, 2, [⟨1, some [0, 0, 0, 1], true, some ⟨1, true⟩⟩],
            [⟨1, some [0, 0, 0, 1], true, some ⟨1, true⟩⟩], []⟩] ∧
          (step ⟨committedTransaction, true⟩ final .handleBatch).isSome) = true := by
      decide
    rw [hrun] at hmap
    simpa using hmap
  obtain ⟨hrunning, hcommitted, hqueue, hsome⟩ := hstate
  obtain ⟨next, hstep⟩ := Option.isSome_iff_exists.mp hsome
  obtain ⟨hsafe, hadvances⟩ := eachMessage_atLeastOnce _ _ _ _ hrun
  obtain ⟨offset, hresolved, hlt, -⟩ :=
    hadvances _ _ next hqueue hrunning (by decide) rfl hstep
  exact ⟨final, next, hrun, hcommitted, hsafe, hstep, offset, hresolved, hlt⟩

/-- At the end of the log a fetch returns a batch without any message. It has no visible record,
and the position stays at the fetched offset. -/
theorem emptyBatch_keeps_position :
    ∃ final next batch,
      run (step ⟨⟨[], List.Pairwise.nil⟩, true⟩) (State.initial 0)
        [.fetch, .response 0 0 [] 0] = some final ∧
      final.queue = [batch] ∧ batch.messages = [] ∧ batch.fetchedOffset = 0 ∧
      step ⟨⟨[], List.Pairwise.nil⟩, true⟩ final .handleBatch = some next ∧
      next.resolvedOffset = some ⟨0, none⟩ := by
  refine ⟨_, _, _, rfl, rfl, rfl, rfl, rfl, rfl⟩

end KafkaJs.Consumer
