import KafkaJs.Consumer.Batch
import KafkaJs.Execution.Run

/-!
# The runner in `eachMessage` mode, for one partition

The offsets of the partition in the offset manager, the fetches in flight, the batches that wait
for the worker, and the worker itself. The worker runs `handleBatch`: what it still has to do is
a list of tasks, each of which ends at an await. Between two tasks anything else may happen:
`pause`, `resume`, `stop`, a commit of explicit offsets, a response to a fetch, a heartbeat that
the handler makes. Any number of fetches may be in flight, as when the partition moves from one
fetcher to another. Seeks and the reset of an offset that is out of range are left out, and with
them the test of `hasSeekOffset` in the loop over the messages.

The fields after `commits` are read by the specifications and not by the code: the offset at
which consumption started, the batches that the worker has begun to handle, the messages for
which the handler has succeeded, and the offsets sent by auto-commits.
-/

namespace KafkaJs.Consumer

/-- An offset as the code stores it: a decimal string, or one of the `Long` objects that
`commitOffsets` makes of explicit offsets. The comparison with `!==` is by content for strings
and by identity for objects. -/
structure StoredOffset where
  value : Int
  object : Option Nat
  deriving DecidableEq, Repr

/-- What the worker still has to do with the batch it handles. `awaitCommit` waits for the
answer to an auto-commit, `handler` for the user's function, and the two tasks around it are the
top and the bottom of the loop over the messages. -/
inductive Task where
  | heartbeat
  | autoCommitOffsets
  | autoCommitOffsetsIfNecessary
  | awaitCommit (offset : StoredOffset)
  | nextMessage (rest : List Message)
  | handler (message : Message) (rest : List Message)
  | unlessPaused (rest : List Message)
  deriving DecidableEq, Repr

/-- The state of the consumer for one partition. `resolvedOffset` is `none` until the position
is first needed. -/
structure State where
  committedOffset : Option StoredOffset
  resolvedOffset : Option StoredOffset
  running : Bool
  paused : Bool
  /-- The offsets of the fetches in flight. -/
  fetches : List Int
  queue : List Batch
  todo : List Task
  /-- Commits in flight that the worker does not wait for. -/
  commits : List StoredOffset
  start : Option Int
  batches : List Batch
  handled : List Message
  autoCommitted : List StoredOffset
  deriving DecidableEq, Repr

/-- How a heartbeat ends. -/
inductive HeartbeatResult where
  | ok
  | rebalancing
  | failed
  deriving DecidableEq, Repr

/-- What may happen next. The response to a fetch says how many record batches fit in it, and
`necessary` whether the interval or the threshold of the auto-commit is reached. -/
inductive Event where
  | pause
  | resume
  | stop
  | fetch
  | fetchFails (index : Nat)
  | response (index count : Nat) (abortedTransactions : List AbortedTransaction)
      (highWatermark : Int)
  | handleBatch
  | nextMessage
  | handlerReturns
  | handlerThrows
  | checkPaused
  | heartbeat (result : HeartbeatResult)
  | commit (necessary : Bool)
  | commitAnswered (ok : Bool)
  | handlerHeartbeatFails
  | commitOffsets (offset : Int) (object : Nat)
  | commitOffsetsAnswered (index : Nat) (ok : Bool)
  deriving DecidableEq, Repr

/-- The log of the partition and the configuration of the consumer. -/
structure Config where
  log : PartitionLog
  autoCommit : Bool

/-- The consumer joined the group; the coordinator or the default gave the committed offset. -/
def State.initial (committedOffset : Int) : State :=
  { committedOffset := some ⟨committedOffset, none⟩
    resolvedOffset := none
    running := true
    paused := false
    fetches := []
    queue := []
    todo := []
    commits := []
    start := none
    batches := []
    handled := []
    autoCommitted := [] }

/-! ## The offset manager -/

/-- `isInvalidOffset`. -/
def isInvalidOffset : Option StoredOffset → Bool
  | none => true
  | some offset => offset.value < 0

/-- `nextOffset`: a missing position is taken from the committed offset. -/
def State.nextOffset (state : State) : State × Int :=
  let resolvedOffset :=
    match state.resolvedOffset with
    | some offset => some offset
    | none => state.committedOffset
  let offset :=
    if isInvalidOffset resolvedOffset then 0 else (resolvedOffset.map StoredOffset.value).getD 0
  ({ state with
      resolvedOffset := resolvedOffset
      start := some (state.start.getD offset) }, offset)

/-- `resolveOffset`. -/
def State.resolveOffset (state : State) (offset : Int) : State :=
  { state with resolvedOffset := some ⟨offset + 1, none⟩ }

/-- `uncommittedOffsets`: the resolved offset, if it is valid and not the committed one. -/
def State.uncommittedOffset (state : State) : Option StoredOffset :=
  match state.resolvedOffset with
  | none => none
  | some offset =>
      if some offset ≠ state.committedOffset ∧ 0 ≤ offset.value then some offset else none

/-! ## The worker -/

/-- The worker goes on with other tasks. -/
def State.goOn (state : State) (todo : List Task) : State := { state with todo := todo }

/-- `handleBatch` up to its first await, in `eachMessage` mode. -/
def State.handleBatch (state : State) (batch : Batch) : State :=
  if state.running then
    let state := { state with batches := state.batches ++ [batch] }
    if batch.isEmptyDueToFiltering then
      (state.resolveOffset batch.lastOffset).goOn [.autoCommitOffsetsIfNecessary, .heartbeat]
    else if batch.isEmpty then state.goOn [.heartbeat]
    else state.goOn [.nextMessage batch.messages, .autoCommitOffsets, .heartbeat]
  else state

/-- `commitOffsets` of the offset manager for the resolved offsets: the offset that is sent. -/
def State.sendCommit (state : State) (config : Config) : State × Option StoredOffset :=
  match if config.autoCommit then state.uncommittedOffset else none with
  | none => (state, none)
  | some offset =>
      ({ state with autoCommitted := state.autoCommitted ++ [offset] }, some offset)

/-- An auto-commit that the worker waits for, if there is something to commit. -/
def State.autoCommitOffsets (state : State) (config : Config) (todo : List Task) : State :=
  match state.sendCommit config with
  | (state, none) => state.goOn todo
  | (state, some offset) => state.goOn (.awaitCommit offset :: todo)

/-- One event. -/
def step (config : Config) (state : State) : Event → Option State
  | .pause => some { state with paused := true }
  | .resume => some { state with paused := false }
  | .stop => some { state with running := false }
  | .fetch =>
      if state.running ∧ state.paused = false ∧ state.committedOffset ≠ none then
        let (state, offset) := state.nextOffset
        some { state with fetches := state.fetches ++ [offset] }
      else none
  | .fetchFails index =>
      if index < state.fetches.length then
        some { state with fetches := state.fetches.eraseIdx index }
      else none
  | .response index count abortedTransactions highWatermark =>
      match state.fetches[index]? with
      | none => none
      | some offset =>
          let state := { state with fetches := state.fetches.eraseIdx index }
          match Batch.create offset highWatermark
              ((config.log.fetch offset count).flatMap RecordBatch.records)
              abortedTransactions with
          -- the error makes the fetch fail
          | .error _ => some state
          | .ok batch =>
              if state.paused then some state
              else some { state with queue := state.queue ++ [batch] }
  | .handleBatch =>
      match state.todo, state.queue with
      | [], batch :: queue => some ({ state with queue := queue }.handleBatch batch)
      | _, _ => none
  | .nextMessage =>
      match state.todo with
      | .nextMessage [] :: todo => some (state.goOn todo)
      | .nextMessage (message :: rest) :: todo =>
          if state.running then some (state.goOn (.handler message rest :: todo))
          else some (state.goOn todo)
      | _ => none
  | .handlerReturns =>
      match state.todo with
      | .handler message rest :: todo =>
          some (({ state with handled := state.handled ++ [message] }.resolveOffset
            message.offset).goOn
              (.heartbeat :: .autoCommitOffsetsIfNecessary :: .unlessPaused rest :: todo))
      | _ => none
  | .handlerThrows =>
      match state.todo with
      -- the error is thrown again after the commit
      | .handler _ _ :: _ => some (state.goOn [.autoCommitOffsets])
      | _ => none
  | .checkPaused =>
      match state.todo with
      | .unlessPaused rest :: todo =>
          some (state.goOn (if state.paused then todo else .nextMessage rest :: todo))
      | _ => none
  | .heartbeat result =>
      match state.todo with
      | .heartbeat :: todo =>
          match result with
          | .ok => some (state.goOn todo)
          -- the error is thrown again after the commit
          | .rebalancing => some (state.goOn [.autoCommitOffsets])
          | .failed => some (state.goOn [])
      | _ => none
  | .commit necessary =>
      match state.todo with
      | .autoCommitOffsets :: todo => some (state.autoCommitOffsets config todo)
      | .autoCommitOffsetsIfNecessary :: todo =>
          if necessary then some (state.autoCommitOffsets config todo)
          else some (state.goOn todo)
      | _ => none
  | .commitAnswered ok =>
      match state.todo with
      | .awaitCommit offset :: todo =>
          if ok then some ({ state with committedOffset := some offset }.goOn todo)
          else some (state.goOn [])
      | _ => none
  | .handlerHeartbeatFails =>
      match state.todo with
      | .handler _ _ :: _ =>
          match state.sendCommit config with
          | (state, none) => some state
          | (state, some offset) => some { state with commits := state.commits ++ [offset] }
      | _ => none
  | .commitOffsets offset object =>
      if state.running ∧ 0 ≤ offset then
        some { state with commits := state.commits ++ [⟨offset, some object⟩] }
      else none
  | .commitOffsetsAnswered index ok =>
      match state.commits[index]? with
      | none => none
      | some offset =>
          some { state with
            commits := state.commits.eraseIdx index
            committedOffset := if ok then some offset else state.committedOffset }

/-! ## What the operations do -/

/-- An auto-commit sends the resolved offset, or nothing. -/
theorem sendCommit_cases {state : State} (config : Config) :
    state.sendCommit config = (state, none) ∨
      ∃ offset ∈ state.resolvedOffset, state.sendCommit config =
        ({ state with autoCommitted := state.autoCommitted ++ [offset] }, some offset) := by
  unfold State.sendCommit State.uncommittedOffset
  split
  · exact Or.inl rfl
  · next offset hoffset =>
      refine Or.inr ⟨offset, ?_, rfl⟩
      split at hoffset
      · split at hoffset
        · cases hoffset
        · next resolved hresolved =>
            split at hoffset
            · cases hoffset
              exact hresolved
            · cases hoffset
      · cases hoffset

/-- What an event does, with the guards under which it happens. -/
inductive Fires (config : Config) (state : State) : Event → State → Prop where
  | pause : Fires config state .pause { state with paused := true }
  | resume : Fires config state .resume { state with paused := false }
  | stop : Fires config state .stop { state with running := false }
  | fetch (hactive : state.running ∧ state.paused = false ∧ state.committedOffset ≠ none) :
      Fires config state .fetch
        { state.nextOffset.1 with
          fetches := state.nextOffset.1.fetches ++ [state.nextOffset.2] }
  | fetchFails {index : Nat} (hindex : index < state.fetches.length) :
      Fires config state (.fetchFails index)
        { state with fetches := state.fetches.eraseIdx index }
  /-- There is no batch, or the partition is paused. -/
  | responseDropped {index count : Nat} {abortedTransactions : List AbortedTransaction}
      {highWatermark offset : Int} (hoffset : state.fetches[index]? = some offset)
      (hdropped : ∀ batch, Batch.create offset highWatermark
        ((config.log.fetch offset count).flatMap RecordBatch.records) abortedTransactions =
          .ok batch → state.paused = true) :
      Fires config state (.response index count abortedTransactions highWatermark)
        { state with fetches := state.fetches.eraseIdx index }
  | response {index count : Nat} {abortedTransactions : List AbortedTransaction}
      {highWatermark offset : Int} {batch : Batch} (hoffset : state.fetches[index]? = some offset)
      (hcreate : Batch.create offset highWatermark
        ((config.log.fetch offset count).flatMap RecordBatch.records) abortedTransactions =
          .ok batch)
      (hpaused : state.paused = false) :
      Fires config state (.response index count abortedTransactions highWatermark)
        { state with
          fetches := state.fetches.eraseIdx index
          queue := state.queue ++ [batch] }
  | handleBatch {batch : Batch} {queue : List Batch} (htodo : state.todo = [])
      (hqueue : state.queue = batch :: queue) :
      Fires config state .handleBatch (({ state with queue := queue } : State).handleBatch batch)
  /-- The loop over the messages ends. -/
  | messagesEnd {rest : List Message} {todo : List Task}
      (htodo : state.todo = .nextMessage rest :: todo)
      (hends : rest = [] ∨ state.running = false) :
      Fires config state .nextMessage (state.goOn todo)
  | nextMessage {message : Message} {rest : List Message} {todo : List Task}
      (htodo : state.todo = .nextMessage (message :: rest) :: todo)
      (hrunning : state.running = true) :
      Fires config state .nextMessage (state.goOn (.handler message rest :: todo))
  | handlerReturns {message : Message} {rest : List Message} {todo : List Task}
      (htodo : state.todo = .handler message rest :: todo) :
      Fires config state .handlerReturns
        ((({ state with handled := state.handled ++ [message] } : State).resolveOffset
          message.offset).goOn
            (.heartbeat :: .autoCommitOffsetsIfNecessary :: .unlessPaused rest :: todo))
  | handlerThrows {message : Message} {rest : List Message} {todo : List Task}
      (htodo : state.todo = .handler message rest :: todo) :
      Fires config state .handlerThrows (state.goOn [.autoCommitOffsets])
  | checkPaused {rest : List Message} {todo : List Task}
      (htodo : state.todo = .unlessPaused rest :: todo) :
      Fires config state .checkPaused
        (state.goOn (if state.paused then todo else .nextMessage rest :: todo))
  | heartbeatOk {todo : List Task} (htodo : state.todo = .heartbeat :: todo) :
      Fires config state (.heartbeat .ok) (state.goOn todo)
  | heartbeatRebalancing {todo : List Task} (htodo : state.todo = .heartbeat :: todo) :
      Fires config state (.heartbeat .rebalancing) (state.goOn [.autoCommitOffsets])
  | heartbeatFailed {todo : List Task} (htodo : state.todo = .heartbeat :: todo) :
      Fires config state (.heartbeat .failed) (state.goOn [])
  | commit {necessary : Bool} {task : Task} {todo : List Task} (htodo : state.todo = task :: todo)
      (htask : task = .autoCommitOffsets ∨ task = .autoCommitOffsetsIfNecessary ∧ necessary = true) :
      Fires config state (.commit necessary) (state.autoCommitOffsets config todo)
  | commitUnnecessary {todo : List Task}
      (htodo : state.todo = .autoCommitOffsetsIfNecessary :: todo) :
      Fires config state (.commit false) (state.goOn todo)
  | commitSucceeds {offset : StoredOffset} {todo : List Task}
      (htodo : state.todo = .awaitCommit offset :: todo) :
      Fires config state (.commitAnswered true)
        (({ state with committedOffset := some offset } : State).goOn todo)
  | commitFails {offset : StoredOffset} {todo : List Task}
      (htodo : state.todo = .awaitCommit offset :: todo) :
      Fires config state (.commitAnswered false) (state.goOn [])
  /-- A heartbeat of the handler fails, and there is nothing to commit. -/
  | nothingSent {message : Message} {rest : List Message} {todo : List Task}
      (htodo : state.todo = .handler message rest :: todo)
      (hsent : state.sendCommit config = (state, none)) :
      Fires config state .handlerHeartbeatFails state
  | resolvedSent {message : Message} {rest : List Message} {todo : List Task}
      {offset : StoredOffset} (htodo : state.todo = .handler message rest :: todo)
      (hoffset : offset ∈ state.resolvedOffset) :
      Fires config state .handlerHeartbeatFails
        { state with
          autoCommitted := state.autoCommitted ++ [offset]
          commits := state.commits ++ [offset] }
  | commitOffsets {offset : Int} {object : Nat} (hvalid : state.running ∧ 0 ≤ offset) :
      Fires config state (.commitOffsets offset object)
        { state with commits := state.commits ++ [⟨offset, some object⟩] }
  | commitOffsetsAnswered {index : Nat} {offset : StoredOffset}
      (hoffset : state.commits[index]? = some offset) (ok : Bool) :
      Fires config state (.commitOffsetsAnswered index ok)
        { state with
          commits := state.commits.eraseIdx index
          committedOffset := if ok then some offset else state.committedOffset }

/-- Every step of the consumer does what its event says. -/
theorem fires_of_step {config : Config} {state next : State} {event : Event}
    (hstep : step config state event = some next) : Fires config state event next := by
  cases event with
  | pause | resume | stop =>
      cases hstep
      constructor
  | fetch | fetchFails | handlerReturns | handlerThrows | checkPaused | commitOffsets =>
      simp only [step] at hstep
      split at hstep
      · next hguard =>
          cases hstep
          constructor
          exact hguard
      · cases hstep
  | response index count abortedTransactions highWatermark =>
      simp only [step] at hstep
      split at hstep
      · cases hstep
      · next offset hoffset =>
          split at hstep
          · next error hcreate =>
              cases hstep
              refine .responseDropped hoffset fun batch hbatch => ?_
              rw [hcreate] at hbatch
              cases hbatch
          · next batch hcreate =>
              split at hstep
              · next hpaused =>
                  cases hstep
                  exact .responseDropped hoffset fun _ _ => hpaused
              · next hpaused =>
                  cases hstep
                  exact .response hoffset hcreate (Bool.eq_false_of_not_eq_true hpaused)
  | handleBatch =>
      simp only [step] at hstep
      split at hstep
      · next htodo hqueue =>
          cases hstep
          exact .handleBatch htodo hqueue
      · cases hstep
  | nextMessage =>
      simp only [step] at hstep
      split at hstep
      · next htodo =>
          cases hstep
          exact .messagesEnd htodo (.inl rfl)
      · next htodo =>
          split at hstep
          · next hrunning =>
              cases hstep
              exact .nextMessage htodo hrunning
          · next hrunning =>
              cases hstep
              exact .messagesEnd htodo (.inr (Bool.eq_false_of_not_eq_true hrunning))
      · cases hstep
  | heartbeat result =>
      simp only [step] at hstep
      split at hstep
      · next htodo =>
          cases result with
          | ok =>
              cases hstep
              exact .heartbeatOk htodo
          | rebalancing =>
              cases hstep
              exact .heartbeatRebalancing htodo
          | failed =>
              cases hstep
              exact .heartbeatFailed htodo
      · cases hstep
  | commit necessary =>
      simp only [step] at hstep
      split at hstep
      · next htodo =>
          cases hstep
          exact .commit htodo (.inl rfl)
      · next htodo =>
          cases necessary with
          | true =>
              cases hstep
              exact .commit htodo (.inr ⟨rfl, rfl⟩)
          | false =>
              cases hstep
              exact .commitUnnecessary htodo
      · cases hstep
  | commitAnswered ok =>
      simp only [step] at hstep
      split at hstep
      · next htodo =>
          cases ok with
          | true =>
              cases hstep
              exact .commitSucceeds htodo
          | false =>
              cases hstep
              exact .commitFails htodo
      · cases hstep
  | handlerHeartbeatFails =>
      simp only [step] at hstep
      split at hstep
      · next htodo =>
          rcases sendCommit_cases config with hsent | ⟨offset, hoffset, hsent⟩
          · rw [hsent] at hstep
            cases hstep
            exact .nothingSent htodo hsent
          · rw [hsent] at hstep
            cases hstep
            exact .resolvedSent htodo hoffset
      · cases hstep
  | commitOffsetsAnswered index ok =>
      simp only [step] at hstep
      split at hstep
      · cases hstep
      · next hoffset =>
          cases hstep
          exact .commitOffsetsAnswered hoffset ok

end KafkaJs.Consumer
