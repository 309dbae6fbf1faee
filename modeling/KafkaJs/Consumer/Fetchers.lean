import KafkaJs.Consumer.AtLeastOnce

/-!
# Fetchers of several nodes over one partition

The leader or the preferred replica of a partition moves, so the fetchers of several nodes fetch
it in turn. Each computes its offset before the request, and drops the batch of the response if
the partition is assigned to another fetcher, whose batch is being processed. The assignment ends
with that batch, so a response may also come too late to be dropped: `redelivers_lateResponse`
is a run in which the handler gets a message again. `noRedelivery_of_fresh` says that this is the
only cause: in every run whose responses bring no message before the position, the handler gets
increasing offsets, and the position never decreases.
-/

namespace KafkaJs.Consumer

open Execution

/-- The consumer of the partition and the fetchers. `nodes` says of every fetch in flight whose
it is, and `assignedFetcher` is the entry of the partition in `partitionAssignments`. The last two
fields are read by the specification only: the messages passed to the handler, and the resolved
offset after every event. -/
structure Fetchers where
  runner : State
  nodes : List Int
  assignedFetcher : Option Int
  passed : List Message
  positions : List Int
  deriving DecidableEq, Repr

namespace Fetchers

/-- What may happen next. A push settles when its batches have been processed, those of other
partitions included. -/
inductive Event where
  | fetch (node : Int)
  | fetchFails (index : Nat)
  | response (index count : Nat) (abortedTransactions : List AbortedTransaction)
      (highWatermark : Int)
  | pushSettles
  | worker (event : Consumer.Event)
  deriving DecidableEq, Repr

/-- The steps of the worker and of the commits, without a pause, a stop, an error of the handler
or a rebalance. The fetches have their own events. -/
def undisturbed : Consumer.Event → Bool
  | .pause | .resume | .stop | .handlerThrows | .heartbeat .rebalancing => false
  | .fetch | .fetchFails _ | .response _ _ _ _ => false
  | _ => true

def initial (committedOffset : Int) : Fetchers :=
  { runner := State.initial committedOffset
    nodes := []
    assignedFetcher := none
    passed := []
    positions := [] }

/-- `filterUnassignedBatches`: the batch is kept unless another fetcher has the partition. -/
def available (state : Fetchers) (node : Int) : Bool :=
  match state.assignedFetcher with
  | none => true
  | some assignedFetcher => assignedFetcher = node

/-- The consumer went on. -/
def observe (state : Fetchers) (runner : State) : Fetchers :=
  { state with
    runner := runner
    positions := state.positions ++ (runner.resolvedOffset.map StoredOffset.value).toList }

/-- The message that an event of the worker passes to the handler. -/
def passedBy (runner : State) : Consumer.Event → List Message
  | .nextMessage =>
      match runner.todo with
      | .nextMessage (message :: _) :: _ => if runner.running then [message] else []
      | _ => []
  | _ => []

/-- One event. -/
def step (config : Config) (state : Fetchers) : Event → Option Fetchers
  | .fetch node =>
      -- a fetcher has one fetch at a time, and none while it waits for its push
      if node ∈ state.nodes ∨ state.assignedFetcher = some node then none
      else
        (Consumer.step config state.runner .fetch).map fun runner =>
          { state.observe runner with nodes := state.nodes ++ [node] }
  | .fetchFails index =>
      (Consumer.step config state.runner (.fetchFails index)).map fun runner =>
        { state.observe runner with nodes := state.nodes.eraseIdx index }
  | .response index count abortedTransactions highWatermark =>
      match state.nodes[index]? with
      | none => none
      | some node =>
          if state.available node then
            (Consumer.step config state.runner
              (.response index count abortedTransactions highWatermark)).map fun runner =>
                { state.observe runner with
                  nodes := state.nodes.eraseIdx index
                  assignedFetcher :=
                    if runner.queue = state.runner.queue then state.assignedFetcher
                    else some node }
          else
            (Consumer.step config state.runner (.fetchFails index)).map fun runner =>
              { state.observe runner with nodes := state.nodes.eraseIdx index }
  | .pushSettles =>
      if state.assignedFetcher ≠ none ∧ state.runner.queue = [] ∧ state.runner.todo = [] then
        some { state with assignedFetcher := none }
      else none
  | .worker event =>
      if undisturbed event then
        (Consumer.step config state.runner event).map fun runner =>
          { state.observe runner with passed := state.passed ++ passedBy state.runner event }
      else none

/-! ## What should hold -/

/-- No message is passed twice, the offsets passed increase, and the resolved offset never
decreases. -/
structure NoRedelivery (state : Fetchers) : Prop where
  once : state.passed.Nodup
  increasing : state.passed.Pairwise fun a b => a.offset < b.offset
  advances : state.positions.Pairwise (· ≤ ·)

/-- The position of the partition, which the next fetch would ask for. -/
def position (runner : State) : Int := runner.nextOffset.2

/-- The batch brings no message before the position, and does not end before it if it is skipped
as a whole. -/
def Ahead (offset : Int) (batch : Batch) : Prop :=
  (∀ message ∈ batch.messages, offset ≤ message.offset) ∧
    (batch.isEmptyDueToFiltering = true → offset ≤ batch.lastOffset + 1)

/-- `Ahead` is decidable by going through the messages of the batch. -/
instance (offset : Int) (batch : Batch) : Decidable (Ahead offset batch) :=
  inferInstanceAs (Decidable (_ ∧ _))

/-- A response that is not dropped brings nothing from before the position, although the position
may have moved since the fetch computed its offset. -/
def Fresh (config : Config) (state : Fetchers) : Event → Prop
  | .response index count abortedTransactions highWatermark =>
      ∀ node ∈ state.nodes[index]?, ∀ offset ∈ state.runner.fetches[index]?,
        state.available node = true →
          ∀ batch ∈ (Batch.create offset highWatermark
              ((config.log.fetch offset count).flatMap RecordBatch.records)
              abortedTransactions).toOption,
            Ahead (position state.runner) batch
  | _ => True

/-- `Fresh` is decidable event by event. -/
instance (config : Config) (state : Fetchers) : ∀ event, Decidable (Fresh config state event)
  | .response _ _ _ _ => inferInstanceAs (Decidable (∀ _ ∈ _, ∀ _ ∈ _, _ → ∀ _ ∈ _, _))
  | .fetch _ | .fetchFails _ | .pushSettles | .worker _ => isTrue trivial

/-! ## The position -/

section Position

variable {runner next : State}

/-- An offset as `nextOffset` reads it. -/
def validOffset (offset : Option StoredOffset) : Int :=
  if isInvalidOffset offset then 0 else (offset.map StoredOffset.value).getD 0

/-- A valid offset is not negative. -/
theorem validOffset_nonneg (offset : Option StoredOffset) : 0 ≤ validOffset offset := by
  cases offset with
  | none => exact Int.le_refl 0
  | some offset =>
      show 0 ≤ if isInvalidOffset (some offset) then 0 else offset.value
      simp only [isInvalidOffset, decide_eq_true_eq]
      split <;> omega

/-- A position is not negative. -/
theorem position_nonneg (runner : State) : 0 ≤ position runner :=
  validOffset_nonneg _

/-- The position where an offset is resolved. -/
theorem position_of_some {offset : StoredOffset} (h : runner.resolvedOffset = some offset) :
    position runner = if offset.value < 0 then 0 else offset.value := by
  simp [position, State.nextOffset, h, isInvalidOffset]

/-- The resolved offset is not beyond the position. -/
theorem le_position {offset : StoredOffset} (h : runner.resolvedOffset = some offset) :
    offset.value ≤ position runner := by
  rw [position_of_some h]
  split <;> omega

/-- The position depends on the resolved offset only. -/
theorem position_congr (h : next.resolvedOffset = runner.resolvedOffset)
    (hsome : runner.resolvedOffset ≠ none) : position next = position runner := by
  obtain ⟨offset, hoffset⟩ := Option.ne_none_iff_exists'.mp hsome
  rw [position_of_some hoffset, position_of_some (h.trans hoffset)]

/-- A resolved offset from the position on becomes the position. -/
theorem position_of_resolved {offset : Int}
    (h : next.resolvedOffset = some ⟨offset + 1, none⟩) (hle : position runner ≤ offset + 1) :
    position next = offset + 1 := by
  have hnonneg := position_nonneg runner
  rw [position_of_some h]
  exact if_neg (Int.not_lt.mpr (Int.le_trans hnonneg hle))

end Position

/-! ## The worker -/

section Worker

variable {runner next : State} {passed : List Message}

/-- The messages that the worker still has to go through. -/
def remaining (todo : List Task) : List Message := todo.flatMap fun task => task.rest.getD []

/-- Without tasks nothing remains. -/
@[simp] theorem remaining_nil : remaining [] = [] := rfl

/-- What remains of a task comes before what remains of the others. -/
@[simp] theorem remaining_cons (task : Task) (todo : List Task) :
    remaining (task :: todo) = task.rest.getD [] ++ remaining todo := rfl

/-- The worker or one waiting batch: what is still to be passed to the handler increases from the
position on, and what was passed lies before the position, but for the message that the handler
has. -/
structure Steady (runner : State) (passed : List Message) : Prop where
  running : runner.running = true
  unpaused : runner.paused = false
  single : runner.queue = [] ∨ runner.todo = [] ∧ ∃ batch, runner.queue = [batch]
  queued : ∀ batch ∈ runner.queue, Ahead (position runner) batch ∧
    batch.messages.Pairwise fun a b => a.offset < b.offset
  increasing : (remaining runner.todo).Pairwise fun a b => a.offset < b.offset
  ahead : ∀ message ∈ remaining runner.todo, position runner ≤ message.offset
  ordered : passed.Pairwise fun a b => a.offset < b.offset
  behind : ∀ message ∈ passed, message.offset < position runner ∨
    ∃ rest todo, runner.todo = .handler message rest :: todo
  idle : runner.resolvedOffset = none →
    runner.fetches = [] ∧ runner.queue = [] ∧ runner.todo = [] ∧ passed = []

/-- The resolved offset does not decrease. -/
def Advances (runner next : State) : Prop :=
  ∀ old ∈ runner.resolvedOffset, ∃ new ∈ next.resolvedOffset, old.value ≤ new.value

/-- A runner whose resolved offset does not change advances. -/
theorem Advances.of_eq (h : next.resolvedOffset = runner.resolvedOffset) :
    Advances runner next := fun old hold => ⟨old, h ▸ hold, Int.le_refl _⟩

/-- Resolving an offset from the position on moves forward. -/
theorem Advances.of_resolved {offset : Int}
    (h : next.resolvedOffset = some ⟨offset + 1, none⟩) (hle : position runner ≤ offset + 1) :
    Advances runner next :=
  fun _ hold => ⟨_, h, Int.le_trans (le_position hold) hle⟩

/-- A step that resolves nothing, begins nothing and passes nothing. -/
structure Quiet (runner next : State) : Prop where
  running : next.running = runner.running
  paused : next.paused = runner.paused
  resolvedOffset : next.resolvedOffset = runner.resolvedOffset
  queue : next.queue = runner.queue
  fetches : runner.fetches = [] → next.fetches = []
  todo : runner.todo = [] → next.todo = []
  rest : (remaining next.todo).Sublist (remaining runner.todo)
  handler : next.todo = runner.todo ∨ ∀ message rest todo,
    runner.todo ≠ .handler message rest :: todo

/-- A quiet step keeps the runner steady. -/
theorem Steady.quiet (h : Steady runner passed) (hquiet : Quiet runner next) :
    Steady next passed := by
  have hsingle : next.queue = [] ∨ next.todo = [] ∧ ∃ batch, next.queue = [batch] := by
    rw [hquiet.queue]
    exact h.single.imp_right fun ⟨htodo, hbatch⟩ => ⟨hquiet.todo htodo, hbatch⟩
  by_cases hnone : runner.resolvedOffset = none
  · -- nothing has begun, so nothing depends on the position
    obtain ⟨hfetches, hqueue, htodo, hpassed⟩ := h.idle hnone
    have hqueueNext : next.queue = [] := hquiet.queue.trans hqueue
    have htodoNext : next.todo = [] := hquiet.todo htodo
    refine ⟨hquiet.running.trans h.running, hquiet.paused.trans h.unpaused, hsingle, ?_, ?_, ?_,
      h.ordered, ?_, fun _ => ⟨hquiet.fetches hfetches, hqueueNext, htodoNext, hpassed⟩⟩
    · simp [hqueueNext]
    · simp [htodoNext]
    · simp [htodoNext]
    · simp [hpassed]
  · have hposition := position_congr hquiet.resolvedOffset hnone
    refine ⟨hquiet.running.trans h.running, hquiet.paused.trans h.unpaused, hsingle, ?_,
      h.increasing.sublist hquiet.rest, ?_, h.ordered, ?_,
      fun hnext => absurd (hquiet.resolvedOffset ▸ hnext) hnone⟩
    · rw [hquiet.queue, hposition]
      exact h.queued
    · rw [hposition]
      exact fun message hmem => h.ahead message (hquiet.rest.subset hmem)
    · rw [hposition]
      intro message hmem
      rcases h.behind message hmem with hbefore | ⟨rest, todo, htodo⟩
      · exact Or.inl hbefore
      · rcases hquiet.handler with hsame | hnot
        · exact Or.inr ⟨rest, todo, hsame.trans htodo⟩
        · exact absurd htodo (hnot message rest todo)

/-- Everything passed lies before the position when the handler has no message. -/
theorem Steady.before (h : Steady runner passed)
    (hhandler : ∀ message rest todo, runner.todo ≠ .handler message rest :: todo) :
    ∀ message ∈ passed, message.offset < position runner := fun message hmem =>
  (h.behind message hmem).resolve_right fun ⟨rest, todo, htodo⟩ => hhandler message rest todo htodo

/-- The position of a worker that has something to do, or of a waiting batch, is known. -/
theorem Steady.resolved (h : Steady runner passed)
    (hbusy : runner.fetches ≠ [] ∨ runner.queue ≠ [] ∨ runner.todo ≠ []) :
    runner.resolvedOffset ≠ none := by
  intro hnone
  obtain ⟨hfetches, hqueue, htodo, -⟩ := h.idle hnone
  rcases hbusy with hsome | hsome | hsome
  · exact hsome hfetches
  · exact hsome hqueue
  · exact hsome htodo

/-- An idle worker takes the only batch and goes on with messages from its position on. -/
theorem Steady.begin (h : Steady runner passed) (htodo : runner.todo = [])
    (hrunning : next.running = true) (hpaused : next.paused = false) (hqueue : next.queue = [])
    (hincreasing : (remaining next.todo).Pairwise fun a b => a.offset < b.offset)
    (hahead : ∀ message ∈ remaining next.todo, position next ≤ message.offset)
    (hle : position runner ≤ position next) (hresolved : next.resolvedOffset ≠ none) :
    Steady next passed := by
  refine ⟨hrunning, hpaused, Or.inl hqueue, by simp [hqueue], hincreasing, hahead, h.ordered,
    fun message hmem => Or.inl ?_, fun hnone => absurd hnone hresolved⟩
  have hbefore := h.before (by simp [htodo]) message hmem
  omega

/-- `handleBatch` with the batch that waits. -/
theorem Steady.handleBatch (h : Steady runner passed) {batch : Batch} (htodo : runner.todo = [])
    (hqueue : runner.queue = [batch]) :
    Steady (({ runner with queue := [] } : State).handleBatch batch) passed ∧
      Advances runner (({ runner with queue := [] } : State).handleBatch batch) := by
  obtain ⟨⟨hmessages, hend⟩, hincreasing⟩ := h.queued batch (by simp [hqueue])
  have hresolved : runner.resolvedOffset ≠ none := h.resolved (Or.inr (Or.inl (by simp [hqueue])))
  unfold State.handleBatch
  rw [if_pos (show ({ runner with queue := [] } : State).running = true from h.running)]
  dsimp only
  split
  · next hfiltered =>
      -- an empty batch moves the position behind its last offset
      have hle := hend hfiltered
      refine ⟨h.begin htodo h.running h.unpaused rfl List.Pairwise.nil (by simp [State.goOn,
        Task.rest]) ?_ (by simp [State.goOn, State.resolveOffset]), Advances.of_resolved rfl hle⟩
      exact Int.le_trans hle (Int.le_of_eq (@position_of_resolved runner _ _ rfl hle).symm)
  · have hgoOn : ∀ {todo : List Task}, (remaining todo).Pairwise (fun a b => a.offset < b.offset) →
        (∀ message ∈ remaining todo, position runner ≤ message.offset) →
        Steady (State.goOn { runner with
          queue := [], batches := runner.batches ++ [batch] } todo) passed ∧
        Advances runner (State.goOn { runner with
          queue := [], batches := runner.batches ++ [batch] } todo) := by
      intro todo hpairwise hahead
      have hposition : position (State.goOn { runner with
          queue := [], batches := runner.batches ++ [batch] } todo) = position runner :=
        position_congr rfl hresolved
      refine ⟨h.begin htodo h.running h.unpaused rfl hpairwise ?_ (Int.le_of_eq hposition.symm)
        hresolved, Advances.of_eq rfl⟩
      rw [hposition]
      exact hahead
    split
    · exact hgoOn List.Pairwise.nil (by simp [Task.rest])
    · refine hgoOn ?_ ?_
      · simpa [Task.rest] using hincreasing
      · simpa [Task.rest] using hmessages

/-- The next message of the batch is passed to the handler. -/
theorem Steady.nextMessage (h : Steady runner passed) {message : Message} {rest : List Message}
    {todo : List Task} (htodo : runner.todo = .nextMessage (message :: rest) :: todo) :
    Steady (runner.goOn (.handler message rest :: todo)) (passed ++ [message]) := by
  have hresolved : runner.resolvedOffset ≠ none := h.resolved (Or.inr (Or.inr (by simp [htodo])))
  have hposition : position (runner.goOn (.handler message rest :: todo)) = position runner :=
    position_congr rfl hresolved
  have hremaining : remaining (.handler message rest :: todo) = remaining runner.todo := by
    simp [htodo, Task.rest]
  have hmessage : position runner ≤ message.offset := h.ahead message (by simp [htodo, Task.rest])
  have hbefore := h.before (by simp [htodo])
  -- the worker has tasks, so no batch waits
  have hqueue : runner.queue = [] :=
    h.single.resolve_right fun ⟨hnil, _⟩ => absurd hnil (by simp [htodo])
  refine ⟨h.running, h.unpaused, Or.inl hqueue, by simp [State.goOn, hqueue], ?_, ?_, ?_, ?_,
    fun hnone => absurd hnone hresolved⟩
  · show (remaining (.handler message rest :: todo)).Pairwise _
    rw [hremaining]
    exact h.increasing
  · show ∀ other ∈ remaining (.handler message rest :: todo), _
    rw [hremaining, hposition]
    exact h.ahead
  · rw [List.pairwise_append]
    refine ⟨h.ordered, List.pairwise_singleton _ _, fun earlier hmem other hother => ?_⟩
    cases List.mem_singleton.mp hother
    exact Int.lt_of_lt_of_le (hbefore earlier hmem) hmessage
  · intro other hmem
    rw [hposition]
    rcases List.mem_append.mp hmem with hold | hnew
    · exact Or.inl (hbefore other hold)
    · cases List.mem_singleton.mp hnew
      exact Or.inr ⟨rest, todo, rfl⟩

/-- The handler returns, and the offset of its message is resolved. -/
theorem Steady.handlerReturns (h : Steady runner passed) {message : Message}
    {rest : List Message} {todo : List Task} (htodo : runner.todo = .handler message rest :: todo)
    (hnext : next = (({ runner with handled := runner.handled ++ [message] } : State).resolveOffset
      message.offset).goOn
        (.heartbeat :: .autoCommitOffsetsIfNecessary :: .unlessPaused rest :: todo)) :
    Steady next passed ∧ Advances runner next := by
  have hremaining : remaining runner.todo = message :: remaining next.todo := by
    simp [htodo, hnext, State.goOn, Task.rest]
  have hincreasing := h.increasing
  rw [hremaining, List.pairwise_cons] at hincreasing
  have hmessage : position runner ≤ message.offset := h.ahead message (by simp [hremaining])
  have hresolved : next.resolvedOffset = some ⟨message.offset + 1, none⟩ := by rw [hnext]; rfl
  have hposition : position next = message.offset + 1 :=
    @position_of_resolved runner _ _ hresolved (by omega)
  have hqueue : next.queue = [] := by
    rw [hnext]
    exact h.single.resolve_right fun hidle => absurd hidle.1 (by simp [htodo])
  refine ⟨⟨by rw [hnext]; exact h.running, by rw [hnext]; exact h.unpaused, Or.inl hqueue,
    by simp [hqueue], hincreasing.2, fun other hother => ?_, h.ordered,
    fun other hmem => Or.inl ?_, by simp [hresolved]⟩,
    Advances.of_resolved hresolved (by omega)⟩
  · have hafter := hincreasing.1 other hother
    omega
  · rcases h.behind other hmem with hbefore | ⟨otherRest, otherTodo, hsame⟩
    · omega
    · -- the message that the handler had is the one just resolved
      rw [htodo, List.cons.injEq, Task.handler.injEq] at hsame
      rw [← hsame.1.1, hposition]
      omega

/-- A step that only changes what the worker has to do, to some of what it had to do. -/
theorem Quiet.goOn {todo : List Task} (hsome : runner.todo ≠ [])
    (hremaining : (remaining todo).Sublist (remaining runner.todo))
    (hhandler : ∀ message rest todo, runner.todo ≠ .handler message rest :: todo) :
    Quiet runner (runner.goOn todo) :=
  ⟨rfl, rfl, rfl, rfl, id, fun hnil => absurd hnil hsome, hremaining, Or.inr hhandler⟩

/-- A step that leaves what the worker has to do, and resolves nothing. -/
theorem Quiet.same (hrunning : next.running = runner.running)
    (hpaused : next.paused = runner.paused)
    (hresolved : next.resolvedOffset = runner.resolvedOffset) (hqueue : next.queue = runner.queue)
    (hfetches : runner.fetches = [] → next.fetches = []) (htodo : next.todo = runner.todo) :
    Quiet runner next :=
  ⟨hrunning, hpaused, hresolved, hqueue, hfetches, fun hnil => htodo.trans hnil,
    by rw [htodo], Or.inl htodo⟩

/-- An auto-commit that the worker waits for is quiet. -/
theorem Quiet.autoCommitOffsets (config : Config) {todo : List Task} (hsome : runner.todo ≠ [])
    (hremaining : (remaining todo).Sublist (remaining runner.todo))
    (hhandler : ∀ message rest todo, runner.todo ≠ .handler message rest :: todo) :
    Quiet runner (runner.autoCommitOffsets config todo) := by
  unfold State.autoCommitOffsets
  rcases sendCommit_cases config with hnone | ⟨offset, -, hsent⟩
  · rw [hnone]
    exact Quiet.goOn hsome hremaining hhandler
  · rw [hsent]
    exact ⟨rfl, rfl, rfl, rfl, id, fun hnil => absurd hnil hsome,
      by simpa [State.goOn, Task.rest] using hremaining, Or.inr hhandler⟩

/-- What one undisturbed event of the worker or of a commit does. -/
theorem Steady.work {config : Config} (h : Steady runner passed) {event : Consumer.Event}
    (hevent : undisturbed event = true) (hfires : Consumer.Fires config runner event next) :
    Steady next (passed ++ passedBy runner event) ∧ Advances runner next ∧
      (runner.queue = [] → runner.todo = [] → next.queue = [] ∧ next.todo = []) := by
  have hquiet : ∀ {next : State}, passedBy runner event = [] → Quiet runner next →
      Steady next (passed ++ passedBy runner event) ∧ Advances runner next ∧
        (runner.queue = [] → runner.todo = [] → next.queue = [] ∧ next.todo = []) := by
    intro next hpassed hquiet
    rw [hpassed, List.append_nil]
    exact ⟨h.quiet hquiet, Advances.of_eq hquiet.resolvedOffset, fun hqueue htodo =>
      ⟨hquiet.queue.trans hqueue, hquiet.todo htodo⟩⟩
  cases hfires with
  | pause | resume | stop | fetch | fetchFails | responseDropped | response | handlerThrows
  | heartbeatRebalancing => cases hevent
  | @handleBatch batch queue htodo hqueue =>
      have hnil : queue = [] := by
        rcases h.single with hempty | ⟨-, other, hother⟩
        · simp [hempty] at hqueue
        · exact (List.cons.inj (hqueue.symm.trans hother)).2
      subst hnil
      obtain ⟨hsteady, hadvances⟩ := h.handleBatch htodo hqueue
      exact ⟨by simpa [passedBy] using hsteady, hadvances, fun hempty => by
        simp [hempty] at hqueue⟩
  | @messagesEnd rest todo htodo hends =>
      -- the runner runs, so the loop has ended because no message is left
      have hnil : rest = [] := hends.resolve_right (by simp [h.running])
      subst hnil
      refine hquiet (by simp [passedBy, htodo]) (Quiet.goOn (by simp [htodo]) ?_ (by simp [htodo]))
      simp [htodo, Task.rest]
  | nextMessage htodo =>
      refine ⟨?_, Advances.of_eq rfl, fun _ hnil => by simp [hnil] at htodo⟩
      simpa [passedBy, htodo, h.running] using h.nextMessage htodo
  | handlerReturns htodo =>
      obtain ⟨hsteady, hadvances⟩ := h.handlerReturns htodo rfl
      exact ⟨by simpa [passedBy] using hsteady, hadvances, fun _ hnil => by simp [hnil] at htodo⟩
  | checkPaused htodo =>
      rw [h.unpaused]
      refine hquiet rfl (Quiet.goOn (by simp [htodo]) ?_ (by simp [htodo]))
      simp [htodo, Task.rest]
  | heartbeatOk htodo | commitUnnecessary htodo =>
      refine hquiet rfl (Quiet.goOn (by simp [htodo]) ?_ (by simp [htodo]))
      simp [htodo, Task.rest]
  | heartbeatFailed htodo | commitFails htodo =>
      exact hquiet rfl (Quiet.goOn (by simp [htodo]) (List.nil_sublist _) (by simp [htodo]))
  | commit htodo htask =>
      refine hquiet rfl (Quiet.autoCommitOffsets config (by simp [htodo]) ?_ ?_)
      · simp [htodo]
      · rcases htask with rfl | ⟨rfl, -⟩ <;> simp [htodo]
  | commitSucceeds htodo =>
      refine hquiet rfl ⟨rfl, rfl, rfl, rfl, id, fun hnil => by simp [hnil] at htodo, ?_,
        Or.inr (by simp [htodo])⟩
      simp [htodo, State.goOn, Task.rest]
  | nothingSent | resolvedSent | commitOffsets | commitOffsetsAnswered =>
      exact hquiet rfl (Quiet.same rfl rfl rfl rfl id rfl)

end Worker

/-! ## The fetches -/

section Fetches

variable {runner next : State} {passed : List Message} {config : Config}

/-- A fetch takes the position and does not move it. -/
theorem Steady.fetch (h : Steady runner passed)
    (hfires : Consumer.Fires config runner .fetch next) :
    Steady next passed ∧ Advances runner next ∧ next.queue = runner.queue ∧
      next.todo = runner.todo := by
  cases hfires with
  | fetch hactive =>
      have hresolved : runner.nextOffset.1.resolvedOffset ≠ none := by
        unfold State.nextOffset
        dsimp only
        split
        · simp
        · exact hactive.2.2
      have hposition : ∀ fetches, position { runner.nextOffset.1 with fetches := fetches } =
          position runner := by
        intro fetches
        unfold position State.nextOffset
        dsimp only
        cases runner.resolvedOffset with
        | some offset => rfl
        | none => cases runner.committedOffset <;> rfl
      refine ⟨⟨h.running, h.unpaused, h.single, ?_, h.increasing, ?_, h.ordered, ?_,
        fun hnone => absurd hnone hresolved⟩, ?_, rfl, rfl⟩
      · rw [hposition]
        exact h.queued
      · rw [hposition]
        exact h.ahead
      · rw [hposition]
        exact h.behind
      · intro old hold
        refine ⟨old, ?_, Int.le_refl _⟩
        unfold State.nextOffset
        rw [Option.mem_def] at hold ⊢
        simp [hold]

/-- A fetch that ends without a batch leaves the rest of the consumer as it is. -/
theorem Quiet.eraseFetch (runner : State) (index : Nat) :
    Quiet runner { runner with fetches := runner.fetches.eraseIdx index } :=
  Quiet.same rfl rfl rfl rfl (fun hnil => by simp [hnil]) rfl

/-- A fetch that fails, or whose batch is dropped. -/
theorem Quiet.fetchFails {index : Nat}
    (hfires : Consumer.Fires config runner (.fetchFails index) next) : Quiet runner next := by
  cases hfires with
  | fetchFails => exact Quiet.eraseFetch runner index

/-- A batch that brings nothing from before the position reaches an idle worker. -/
theorem Steady.response (h : Steady runner passed) {index count : Nat}
    {abortedTransactions : List AbortedTransaction} {highWatermark : Int}
    (hidle : runner.queue = [] ∧ runner.todo = [])
    (hfresh : ∀ offset ∈ runner.fetches[index]?,
      ∀ batch ∈ (Batch.create offset highWatermark
        ((config.log.fetch offset count).flatMap RecordBatch.records)
        abortedTransactions).toOption, Ahead (position runner) batch)
    (hfires : Consumer.Fires config runner
      (.response index count abortedTransactions highWatermark) next) :
    Steady next passed ∧ Advances runner next ∧ (next.queue = [] → next.todo = []) := by
  cases hfires with
  | responseDropped =>
      exact ⟨h.quiet (Quiet.eraseFetch runner index), Advances.of_eq rfl, fun _ => hidle.2⟩
  | @response _ _ _ _ offset batch hoffset hcreate =>
      have hresolved : runner.resolvedOffset ≠ none :=
        h.resolved (Or.inl fun hnil => by simp [hnil] at hoffset)
      have hposition : position { runner with
          fetches := runner.fetches.eraseIdx index, queue := runner.queue ++ [batch] } =
          position runner := position_congr rfl hresolved
      have hahead : Ahead (position runner) batch :=
        hfresh offset hoffset batch (by simp [hcreate, Except.toOption])
      refine ⟨⟨h.running, h.unpaused, Or.inr ⟨hidle.2, batch, by simp [hidle.1]⟩, ?_,
        h.increasing, ?_, h.ordered, ?_, fun hnone => absurd hnone hresolved⟩,
        Advances.of_eq rfl, by simp⟩
      · intro other hother
        simp only [hidle.1, List.nil_append, List.mem_singleton] at hother
        rw [hposition, hother]
        exact ⟨hahead, (Batch.isFetched_of_create hcreate).1.increasing⟩
      · rw [hposition]
        exact h.ahead
      · rw [hposition]
        exact h.behind

end Fetches

/-! ## The invariant -/

/-- The worker is steady, and it has something to do only while the partition is assigned to a
fetcher, which then waits for its push. -/
structure Sound (state : Fetchers) : Prop where
  steady : Steady state.runner state.passed
  nodup : state.nodes.Nodup
  away : ∀ node ∈ state.nodes, state.assignedFetcher ≠ some node
  unassigned : state.assignedFetcher = none → state.runner.queue = [] ∧ state.runner.todo = []
  advances : state.positions.Pairwise (· ≤ ·)
  reached : ∀ position ∈ state.positions,
    ∃ offset ∈ state.runner.resolvedOffset, position ≤ offset.value

section Sound

variable {config : Config} {state next : Fetchers}

/-- A resolved offset that does not decrease goes to the end of the positions. -/
theorem Sound.observe (h : Sound state) {runner : State}
    (hadvances : Advances state.runner runner) :
    (state.observe runner).positions.Pairwise (· ≤ ·) ∧
      ∀ position ∈ (state.observe runner).positions,
        ∃ offset ∈ runner.resolvedOffset, position ≤ offset.value := by
  have hbefore : ∀ position ∈ state.positions,
      ∃ offset ∈ runner.resolvedOffset, position ≤ offset.value := by
    intro position hmem
    obtain ⟨old, hold, hle⟩ := h.reached position hmem
    obtain ⟨new, hnew, hadvance⟩ := hadvances old hold
    exact ⟨new, hnew, Int.le_trans hle hadvance⟩
  cases hresolved : runner.resolvedOffset with
  | none =>
      refine ⟨by simpa [Fetchers.observe, hresolved] using h.advances, fun position hmem => ?_⟩
      rw [← hresolved]
      exact hbefore position (by simpa [Fetchers.observe, hresolved] using hmem)
  | some offset =>
      have hpositions : (state.observe runner).positions = state.positions ++ [offset.value] := by
        simp [Fetchers.observe, hresolved]
      have hle : ∀ position ∈ state.positions, position ≤ offset.value := by
        intro position hmem
        obtain ⟨new, hnew, hle⟩ := hbefore position hmem
        cases hresolved.symm.trans hnew
        exact hle
      rw [hpositions]
      refine ⟨?_, fun position hmem => ⟨offset, rfl, ?_⟩⟩
      · rw [List.pairwise_append]
        refine ⟨h.advances, List.pairwise_singleton _ _, fun position hmem last hlast => ?_⟩
        rw [List.mem_singleton.mp hlast]
        exact hle position hmem
      · rcases List.mem_append.mp hmem with hold | hlast
        · exact hle position hold
        · exact Int.le_of_eq (List.mem_singleton.mp hlast)

/-- A fetch that has ended is not among those that go on. -/
theorem not_mem_eraseIdx {nodes : List Int} {index : Nat} {node : Int} (hnodup : nodes.Nodup)
    (hnode : nodes[index]? = some node) : node ∉ nodes.eraseIdx index := by
  intro hmem
  obtain ⟨other, hne, hother⟩ := List.mem_eraseIdx_iff_getElem?.mp hmem
  have hlt : other < nodes.length := (List.getElem?_eq_some_iff.mp hother).1
  exact hne ((List.getElem?_inj hlt hnodup).mp (hother.trans hnode.symm))

/-- The fetch at the index ends, and the consumer only takes note of it. -/
theorem Sound.fetchFails (h : Sound state) {index : Nat} {runner : State}
    (hfires : Consumer.Fires config state.runner (.fetchFails index) runner) :
    Sound { state.observe runner with nodes := state.nodes.eraseIdx index } := by
  have hquiet := Quiet.fetchFails hfires
  obtain ⟨hpositions, hreached⟩ := h.observe (Advances.of_eq hquiet.resolvedOffset)
  refine ⟨h.steady.quiet hquiet, h.nodup.eraseIdx index,
    fun node hmem => h.away node (List.mem_of_mem_eraseIdx hmem), fun hnone => ?_, hpositions,
    hreached⟩
  obtain ⟨hqueue, htodo⟩ := h.unassigned hnone
  exact ⟨hquiet.queue.trans hqueue, hquiet.todo htodo⟩

/-- Every event with a fresh response keeps the fetchers sound. -/
theorem Sound.step (h : Sound state) {event : Event} (hfresh : Fresh config state event)
    (hstep : Fetchers.step config state event = some next) : Sound next := by
  cases event with
  | fetch node =>
      simp only [Fetchers.step] at hstep
      split at hstep
      · cases hstep
      · next hguard =>
          rw [not_or] at hguard
          obtain ⟨runner, hrunner, rfl⟩ := Option.map_eq_some_iff.mp hstep
          obtain ⟨hsteady, hadvances, hqueue, htodo⟩ := h.steady.fetch (fires_of_step hrunner)
          obtain ⟨hpositions, hreached⟩ := h.observe hadvances
          refine ⟨hsteady, ?_, fun other hmem => ?_, fun hnone => ?_, hpositions, hreached⟩
          · exact List.nodup_append.mpr ⟨h.nodup, List.nodup_singleton node,
              fun other hmem last hlast heq => hguard.1 (by
                rw [← List.mem_singleton.mp hlast, ← heq]
                exact hmem)⟩
          · rcases List.mem_append.mp hmem with hold | hnew
            · exact h.away other hold
            · rw [List.mem_singleton.mp hnew]
              exact hguard.2
          · obtain ⟨hnoBatch, hnoTask⟩ := h.unassigned hnone
            exact ⟨hqueue.trans hnoBatch, htodo.trans hnoTask⟩
  | fetchFails index =>
      obtain ⟨runner, hrunner, rfl⟩ := Option.map_eq_some_iff.mp hstep
      exact h.fetchFails (fires_of_step hrunner)
  | response index count abortedTransactions highWatermark =>
      simp only [Fetchers.step] at hstep
      split at hstep
      · cases hstep
      · next node hnode =>
          split at hstep
          · next havailable =>
              obtain ⟨runner, hrunner, rfl⟩ := Option.map_eq_some_iff.mp hstep
              -- the fetcher does not wait for a push, so no fetcher has the partition
              have hnone : state.assignedFetcher = none := by
                cases hassigned : state.assignedFetcher with
                | none => rfl
                | some assignedFetcher =>
                    have hsame : assignedFetcher = node := by
                      simpa [available, hassigned] using havailable
                    exact absurd (hsame ▸ hassigned) (h.away node (List.mem_of_getElem? hnode))
              obtain ⟨hqueue, htodo⟩ := h.unassigned hnone
              obtain ⟨hsteady, hadvances, hidle⟩ := h.steady.response ⟨hqueue, htodo⟩
                (fun offset hoffset => hfresh node hnode offset hoffset havailable)
                (fires_of_step hrunner)
              obtain ⟨hpositions, hreached⟩ := h.observe hadvances
              refine ⟨hsteady, h.nodup.eraseIdx index, fun other hmem => ?_, fun hstill => ?_,
                hpositions, hreached⟩
              · show (if runner.queue = state.runner.queue then state.assignedFetcher
                  else some node) ≠ some other
                split
                · exact h.away other (List.mem_of_mem_eraseIdx hmem)
                · rintro ⟨⟩
                  exact not_mem_eraseIdx h.nodup hnode hmem
              · have hsame : runner.queue = [] := by
                  by_contra hnew
                  rw [← hqueue] at hnew
                  simp [hnew] at hstill
                exact ⟨hsame, hidle hsame⟩
          · obtain ⟨runner, hrunner, rfl⟩ := Option.map_eq_some_iff.mp hstep
            exact h.fetchFails (fires_of_step hrunner)
  | pushSettles =>
      simp only [Fetchers.step] at hstep
      split at hstep
      · next hguard =>
          cases hstep
          exact ⟨h.steady, h.nodup, fun _ _ => nofun, fun _ => hguard.2, h.advances, h.reached⟩
      · cases hstep
  | worker event =>
      simp only [Fetchers.step] at hstep
      split at hstep
      · next hevent =>
          obtain ⟨runner, hrunner, rfl⟩ := Option.map_eq_some_iff.mp hstep
          obtain ⟨hsteady, hadvances, hidle⟩ := h.steady.work hevent (fires_of_step hrunner)
          obtain ⟨hpositions, hreached⟩ := h.observe hadvances
          exact ⟨hsteady, h.nodup, h.away, fun hnone =>
            hidle (h.unassigned hnone).1 (h.unassigned hnone).2, hpositions, hreached⟩
      · cases hstep

/-- At first nothing is fetched. -/
theorem Sound.initial (committedOffset : Int) : Sound (Fetchers.initial committedOffset) := by
  refine ⟨⟨rfl, rfl, Or.inl rfl, ?_, List.Pairwise.nil, ?_, List.Pairwise.nil, ?_,
    fun _ => ⟨rfl, rfl, rfl, rfl⟩⟩, List.nodup_nil, ?_, fun _ => ⟨rfl, rfl⟩, List.Pairwise.nil,
    ?_⟩ <;> simp [Fetchers.initial, State.initial]

end Sound

/-! ## Runs of the fetchers -/

/-- Where every response that is not dropped brings nothing from before the position, no message
is passed to the handler twice or out of order, and the position never decreases. -/
theorem noRedelivery_of_fresh (config : Config) (committedOffset : Int) {events : List Event}
    {final : Fetchers}
    (hfresh : Meets (step config) (Fresh config) (initial committedOffset) events)
    (hrun : run (step config) (initial committedOffset) events = some final) :
    NoRedelivery final := by
  have hsound : Sound final := invariant_of_meets
    (fun _ _ _ h hfresh hstep => h.step hfresh hstep) (Sound.initial committedOffset) hfresh hrun
  refine ⟨hsound.steady.ordered.imp ?_, hsound.steady.ordered, hsound.advances⟩
  rintro first _ hlt rfl
  exact absurd hlt (Int.lt_irrefl _)

/-- Two fetchers take turns: the batch of the second is dropped while the first has the partition,
and its next fetch goes on from the position. -/
def turns : List Event :=
  [.fetch 0, .fetch 1, .response 0 1 [] 2, .response 0 1 [] 2, .worker .handleBatch,
    .worker .nextMessage, .worker .handlerReturns, .worker (.heartbeat .ok),
    .worker (.commit false), .worker .checkPaused, .worker .nextMessage, .worker (.commit false),
    .worker (.heartbeat .ok)]

/-- Fetchers that take turns deliver no message twice. -/
theorem noRedelivery_turns : ∃ final,
    run (step ⟨committedTransaction, false⟩) (initial 0) turns = some final ∧
      final.passed.map Message.offset = [0] ∧ NoRedelivery final := by
  obtain ⟨final, hrun, hpassed⟩ : ∃ final,
      run (step ⟨committedTransaction, false⟩) (initial 0) turns = some final ∧
        final.passed.map Message.offset = [0] := Option.map_eq_some_iff.mp (by decide)
  exact ⟨final, hrun, hpassed, noRedelivery_of_fresh _ 0 (by decide) hrun⟩

/-- The second fetch computes its offset while the handler has the message, and its response
comes after the partition was given up: the handler gets the message again. -/
def lateResponse : List Event :=
  [.fetch 0, .response 0 1 [] 2, .worker .handleBatch, .worker .nextMessage, .fetch 1,
    .worker .handlerReturns, .worker (.heartbeat .ok), .worker (.commit false),
    .worker .checkPaused, .worker .nextMessage, .worker (.commit false), .worker (.heartbeat .ok),
    .pushSettles, .response 0 1 [] 2, .worker .handleBatch, .worker .nextMessage]

/-- A response that comes after the partition was given up delivers a message again. -/
theorem redelivers_lateResponse : ∃ final,
    run (step ⟨committedTransaction, false⟩) (initial 0) lateResponse = some final ∧
      final.passed.map Message.offset = [0, 0] ∧ ¬ NoRedelivery final := by
  obtain ⟨final, hrun, hpassed⟩ : ∃ final,
      run (step ⟨committedTransaction, false⟩) (initial 0) lateResponse = some final ∧
        final.passed.map Message.offset = [0, 0] := Option.map_eq_some_iff.mp (by decide)
  refine ⟨final, hrun, hpassed, fun hnone => ?_⟩
  have hincreasing : (final.passed.map Message.offset).Pairwise (· < ·) :=
    List.pairwise_map.mpr hnone.increasing
  rw [hpassed] at hincreasing
  exact absurd hincreasing (by decide)

end Fetchers

end KafkaJs.Consumer
