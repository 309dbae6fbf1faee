import KafkaJs.Consumer.GroupOffsets

/-!
# Seeking in one partition

A seek is an entry of a map. While the entry is there, the worker of the partition stops before
its next message, and responses to fetches are dropped. A fetch pops the entry, in the loop of
`seekOffsets`, before the commit that gives it effect. `Kept` says that a seek is neither lost nor
overridden, and `Undisturbed` when that can be relied on; `KafkaJs.Consumer.SeekStages` proves it.

The machine follows one partition that stays assigned and is not paused, in `eachMessage` mode,
from any state on, until its position is reset. The fields `before` of requests and batches, and
the last three fields of the state, are read by the specification only. A message is its offset,
and an offset that may be undefined is an `Option`.
-/

namespace KafkaJs.Consumer

open Execution
open Offsets (isInvalid)

/-- Where a fetch is, as far as the partition is concerned. -/
inductive SeekPhase where
  /-- Its loop over the seeks has not come to the partition yet. -/
  | begun
  /-- `OffsetManager.seek` waits for its commit, which the coordinator may have applied. -/
  | committing (offset : Int) (applied : Bool)
  /-- The loop is past the partition. -/
  | passed
  /-- `resolveOffsets` asks for the partition; the coordinator may have looked up the offset. -/
  | resolving (stored : Option Int)
  | ready
  /-- The requests are computed, the broker is not found yet. -/
  | built (offset : Int) (before : Bool)
  | sent (before : Bool)
  | ended
  deriving DecidableEq, Repr

/-- A fetch; `leads` says whether the partition is one of its node. -/
structure SeekFetch where
  leads : Bool
  phase : SeekPhase
  deriving DecidableEq, Repr

/-- The messages of a batch that waits for the worker; `filtered` is its last offset if all of its
messages were filtered out. -/
structure SeekBatch where
  messages : List Int
  filtered : Option Int
  before : Bool
  deriving DecidableEq, Repr

/-- Where the worker is: at the top of the loop of `processEachMessage`, in the handler, or at the
heartbeat and the auto-commit after an offset was resolved. -/
inductive WorkerPhase where
  | top (rest : List Int)
  | handler (message : Int) (rest : List Int)
  | after (rest : List Int)
  deriving DecidableEq, Repr

/-- The worker, with a batch. -/
structure SeekWorker where
  phase : WorkerPhase
  before : Bool
  deriving DecidableEq, Repr

/-- An auto-commit in flight. -/
structure SeekCommit where
  offset : Int
  applied : Bool
  deriving DecidableEq, Repr

/-- The partition in the offset manager, at the coordinator, in the fetches and at its worker.
`sought` is the offset of the last seek; `nextRequest` and `passed` are the first offset requested
since, and the messages passed to the handler since that were fetched before. -/
structure PartitionSeek where
  autoCommit : Bool
  stored : Int
  committedOffset : Option Int
  resolvedOffset : Option Int
  seekOffset : Option Int
  fetches : List SeekFetch
  queue : List SeekBatch
  worker : Option SeekWorker
  commits : List SeekCommit
  sought : Int
  nextRequest : Option Int
  passed : List Int
  deriving DecidableEq, Repr

namespace PartitionSeek

/-- What may happen next. `turn` is the turn of the partition in the loop of `seekOffsets`, and
the default is the offset that the topic's configuration gives a partition without one. -/
inductive Event where
  | seek (offset : Int)
  | start (leads : Bool)
  | turn (index : Nat)
  | seekApplied (index : Nat)
  | seekAnswered (index : Nat)
  | resolve (index : Nat)
  | resolveApplied (index : Nat)
  | resolveAnswered (index : Nat) (default : Int)
  | build (index : Nat)
  | send (index : Nat)
  | responds (index : Nat) (messages : List Int) (filtered : Option Int)
  | fails (index : Nat)
  | handleBatch
  | nextMessage
  | handlerReturns
  /-- The handler, or what comes after it, throws. -/
  | throws
  | settled
  | autoCommitOffsets
  | commitApplied (index : Nat)
  | commitAnswered (index : Nat)
  | commitFails (index : Nat)
  deriving DecidableEq, Repr

/-- `uncommittedOffsets`, of the partition. -/
def uncommittedOffset (state : PartitionSeek) : Option Int :=
  match state.resolvedOffset with
  | none => none
  | some offset => if some offset = state.committedOffset ∨ offset < 0 then none else some offset

/-- The fetch goes on. -/
def setPhase (state : PartitionSeek) (index : Nat) (leads : Bool) (phase : SeekPhase) :
    PartitionSeek :=
  { state with fetches := state.fetches.set index ⟨leads, phase⟩ }

/-- A request that was computed before the seek. -/
def markFetch (fetch : SeekFetch) : SeekFetch :=
  match fetch.phase with
  | .built offset _ => { fetch with phase := .built offset true }
  | .sent _ => { fetch with phase := .sent true }
  | _ => fetch

/-- `seek`: the map gets the entry, in the place of an earlier one. -/
def seek (state : PartitionSeek) (offset : Int) : PartitionSeek :=
  { state with
    seekOffset := some offset
    fetches := state.fetches.map markFetch
    queue := state.queue.map fun batch => { batch with before := true }
    worker := state.worker.map fun worker => { worker with before := true }
    sought := offset
    nextRequest := none
    passed := [] }

/-- The partition's turn in the loop of `seekOffsets`. The entry is popped before
`OffsetManager.seek` is called; without auto-commit that call sets the position. -/
def takeTurn (state : PartitionSeek) (index : Nat) (leads : Bool) : PartitionSeek :=
  match leads, state.seekOffset with
  | true, some offset =>
      if state.autoCommit then
        { state with seekOffset := none }.setPhase index leads (.committing offset false)
      else
        { state with seekOffset := none, resolvedOffset := some offset }.setPhase index leads .passed
  | _, _ => state.setPhase index leads .passed

/-- `nextOffset`: a missing position is taken from the committed offset. -/
def nextOffset (state : PartitionSeek) : PartitionSeek × Int :=
  let resolvedOffset := state.resolvedOffset <|> state.committedOffset
  ({ state with resolvedOffset := resolvedOffset },
    if isInvalid resolvedOffset then 0 else resolvedOffset.getD 0)

/-- The requests of `fetch`, which have the partition only if it has a committed offset. -/
def buildRequest (state : PartitionSeek) (index : Nat) (leads : Bool) : PartitionSeek :=
  if leads = true ∧ state.committedOffset.isSome = true then
    state.nextOffset.1.setPhase index leads (.built state.nextOffset.2 false)
  else state.setPhase index leads .ended

/-- `handleBatch`: a batch from which everything was filtered out is resolved at once. -/
def handleBatch (state : PartitionSeek) (batch : SeekBatch) (queue : List SeekBatch) :
    PartitionSeek :=
  match batch.messages, batch.filtered with
  | [], some lastOffset =>
      { state with
        resolvedOffset := some (lastOffset + 1)
        worker := some ⟨.after [], batch.before⟩
        queue := queue }
  | messages, _ => { state with worker := some ⟨.top messages, batch.before⟩, queue := queue }

/-- The top of the loop of `processEachMessage`. -/
def nextMessage (state : PartitionSeek) (worker : SeekWorker) (rest : List Int) : PartitionSeek :=
  match rest with
  | [] => { state with worker := none }
  | message :: rest =>
      if state.seekOffset.isSome then { state with worker := none }
      else
        { state with
          worker := some { worker with phase := .handler message rest }
          passed := state.passed ++ if worker.before then [message] else [] }

/-- One event. -/
def step (state : PartitionSeek) : Event → Option PartitionSeek
  | .seek offset =>
      -- the special offsets latest and earliest are negative, and left out
      if 0 ≤ offset then some (state.seek offset) else none
  | .start leads => some { state with fetches := state.fetches ++ [⟨leads, .begun⟩] }
  | .turn index =>
      match state.fetches[index]? with
      | some ⟨leads, .begun⟩ => some (state.takeTurn index leads)
      | _ => none
  | .seekApplied index =>
      match state.fetches[index]? with
      | some ⟨leads, .committing offset false⟩ =>
          some ({ state with stored := offset }.setPhase index leads (.committing offset true))
      | _ => none
  | .seekAnswered index =>
      match state.fetches[index]? with
      | some ⟨leads, .committing _ true⟩ =>
          -- `clearOffsets`
          some ({ state with committedOffset := none, resolvedOffset := none }.setPhase index leads
            .passed)
      | _ => none
  | .resolve index =>
      match state.fetches[index]? with
      | some ⟨leads, .passed⟩ =>
          some (state.setPhase index leads
            (if isInvalid state.committedOffset then .resolving none else .ready))
      | _ => none
  | .resolveApplied index =>
      match state.fetches[index]? with
      | some ⟨leads, .resolving none⟩ =>
          some (state.setPhase index leads (.resolving (some state.stored)))
      | _ => none
  | .resolveAnswered index default =>
      match state.fetches[index]? with
      | some ⟨leads, .resolving (some stored)⟩ =>
          some ({ state with
            committedOffset := some (if stored < 0 then default else stored) }.setPhase index leads
              .ready)
      | _ => none
  | .build index =>
      match state.fetches[index]? with
      | some ⟨leads, .ready⟩ => some (state.buildRequest index leads)
      | _ => none
  | .send index =>
      match state.fetches[index]? with
      | some ⟨leads, .built offset before⟩ =>
          some ({ state with nextRequest := state.nextRequest <|> some offset }.setPhase index leads
            (.sent before))
      | _ => none
  | .responds index messages filtered =>
      match state.fetches[index]? with
      | some ⟨leads, .sent before⟩ =>
          some ({ state with
            queue := if state.seekOffset.isSome then state.queue
              else state.queue ++ [SeekBatch.mk messages filtered before] }.setPhase index leads
                .ended)
      | _ => none
  | .fails index =>
      match state.fetches[index]? with
      | none | some ⟨_, .ended⟩ => none
      | some ⟨leads, _⟩ => some (state.setPhase index leads .ended)
  | .handleBatch =>
      match state.worker, state.queue with
      | none, batch :: queue => some (state.handleBatch batch queue)
      | _, _ => none
  | .nextMessage =>
      match state.worker with
      | some ⟨.top rest, before⟩ => some (state.nextMessage ⟨.top rest, before⟩ rest)
      | _ => none
  | .handlerReturns =>
      match state.worker with
      | some ⟨.handler message rest, before⟩ =>
          some { state with
            resolvedOffset := some (message + 1)
            worker := some ⟨.after rest, before⟩ }
      | _ => none
  | .throws =>
      match state.worker with
      | some ⟨.handler _ _, _⟩ | some ⟨.after _, _⟩ => some { state with worker := none }
      | _ => none
  | .settled =>
      match state.worker with
      | some ⟨.after rest, before⟩ => some { state with worker := some ⟨.top rest, before⟩ }
      | _ => none
  | .autoCommitOffsets =>
      -- any worker of the group commits the offsets of all partitions
      if state.autoCommit then
        some { state with
          commits := state.commits ++
            (state.uncommittedOffset.map fun offset => SeekCommit.mk offset false).toList }
      else none
  | .commitApplied index =>
      match state.commits[index]? with
      | some ⟨offset, false⟩ =>
          some { state with stored := offset, commits := state.commits.set index ⟨offset, true⟩ }
      | _ => none
  | .commitAnswered index =>
      match state.commits[index]? with
      | some ⟨offset, true⟩ =>
          some { state with
            committedOffset := some offset
            commits := state.commits.eraseIdx index }
      | _ => none
  | .commitFails index =>
      if index < state.commits.length then
        some { state with commits := state.commits.eraseIdx index }
      else none

/-- What an event does, with the guards under which it happens. -/
inductive Fires (state : PartitionSeek) : Event → PartitionSeek → Prop where
  | seek {offset : Int} (hoffset : 0 ≤ offset) : Fires state (.seek offset) (state.seek offset)
  | start (leads : Bool) :
      Fires state (.start leads)
        { state with fetches := state.fetches ++ [⟨leads, .begun⟩] }
  | turn {index : Nat} {leads : Bool} (hfetch : state.fetches[index]? = some ⟨leads, .begun⟩) :
      Fires state (.turn index) (state.takeTurn index leads)
  | seekApplied {index : Nat} {leads : Bool} {offset : Int}
      (hfetch : state.fetches[index]? = some ⟨leads, .committing offset false⟩) :
      Fires state (.seekApplied index)
        ({ state with stored := offset }.setPhase index leads (.committing offset true))
  | seekAnswered {index : Nat} {leads : Bool} {offset : Int}
      (hfetch : state.fetches[index]? = some ⟨leads, .committing offset true⟩) :
      Fires state (.seekAnswered index)
        ({ state with committedOffset := none, resolvedOffset := none }.setPhase index leads
          .passed)
  | resolve {index : Nat} {leads : Bool}
      (hfetch : state.fetches[index]? = some ⟨leads, .passed⟩) :
      Fires state (.resolve index)
        (state.setPhase index leads
          (if isInvalid state.committedOffset then .resolving none else .ready))
  | resolveApplied {index : Nat} {leads : Bool}
      (hfetch : state.fetches[index]? = some ⟨leads, .resolving none⟩) :
      Fires state (.resolveApplied index)
        (state.setPhase index leads (.resolving (some state.stored)))
  | resolveAnswered {index : Nat} {leads : Bool} {stored default : Int}
      (hfetch : state.fetches[index]? = some ⟨leads, .resolving (some stored)⟩) :
      Fires state (.resolveAnswered index default)
        ({ state with
          committedOffset := some (if stored < 0 then default else stored) }.setPhase index leads
            .ready)
  | build {index : Nat} {leads : Bool} (hfetch : state.fetches[index]? = some ⟨leads, .ready⟩) :
      Fires state (.build index) (state.buildRequest index leads)
  | send {index : Nat} {leads : Bool} {offset : Int} {before : Bool}
      (hfetch : state.fetches[index]? = some ⟨leads, .built offset before⟩) :
      Fires state (.send index)
        ({ state with nextRequest := state.nextRequest <|> some offset }.setPhase index leads
          (.sent before))
  | responds {index : Nat} {leads before : Bool} {messages : List Int} {filtered : Option Int}
      (hfetch : state.fetches[index]? = some ⟨leads, .sent before⟩) :
      Fires state (.responds index messages filtered)
        ({ state with
          queue := if state.seekOffset.isSome then state.queue
            else state.queue ++ [SeekBatch.mk messages filtered before] }.setPhase index leads
              .ended)
  | fails {index : Nat} {fetch : SeekFetch} (hfetch : state.fetches[index]? = some fetch) :
      Fires state (.fails index) (state.setPhase index fetch.leads .ended)
  | handleBatch {batch : SeekBatch} {queue : List SeekBatch} (hworker : state.worker = none)
      (hqueue : state.queue = batch :: queue) :
      Fires state .handleBatch (state.handleBatch batch queue)
  | nextMessage {rest : List Int} {before : Bool}
      (hworker : state.worker = some ⟨.top rest, before⟩) :
      Fires state .nextMessage (state.nextMessage ⟨.top rest, before⟩ rest)
  | handlerReturns {message : Int} {rest : List Int} {before : Bool}
      (hworker : state.worker = some ⟨.handler message rest, before⟩) :
      Fires state .handlerReturns
        { state with
          resolvedOffset := some (message + 1)
          worker := some ⟨.after rest, before⟩ }
  | throws {worker : SeekWorker} (hworker : state.worker = some worker) :
      Fires state .throws { state with worker := none }
  | settled {rest : List Int} {before : Bool}
      (hworker : state.worker = some ⟨.after rest, before⟩) :
      Fires state .settled { state with worker := some ⟨.top rest, before⟩ }
  | autoCommitOffsets (hautoCommit : state.autoCommit = true) :
      Fires state .autoCommitOffsets
        { state with
          commits := state.commits ++
            (state.uncommittedOffset.map fun offset => SeekCommit.mk offset false).toList }
  | commitApplied {index : Nat} {offset : Int}
      (hcommit : state.commits[index]? = some ⟨offset, false⟩) :
      Fires state (.commitApplied index)
        { state with stored := offset, commits := state.commits.set index ⟨offset, true⟩ }
  | commitAnswered {index : Nat} {offset : Int}
      (hcommit : state.commits[index]? = some ⟨offset, true⟩) :
      Fires state (.commitAnswered index)
        { state with committedOffset := some offset, commits := state.commits.eraseIdx index }
  | commitFails {index : Nat} (hcommit : index < state.commits.length) :
      Fires state (.commitFails index)
        { state with commits := state.commits.eraseIdx index }

/-- Every step of the seek does what its event says. -/
theorem fires_of_step {state next : PartitionSeek} {event : Event}
    (hstep : step state event = some next) : Fires state event next := by
  cases event with
  | start leads =>
      cases hstep
      exact .start leads
  | seek | autoCommitOffsets | commitFails =>
      simp only [step] at hstep
      split at hstep
      · next hguard =>
          cases hstep
          constructor
          exact hguard
      · cases hstep
  | turn | seekApplied | seekAnswered | resolve | resolveApplied | resolveAnswered | build | send
  | responds | nextMessage | handlerReturns | settled | commitApplied | commitAnswered =>
      simp only [step] at hstep
      split at hstep
      · next hfound =>
          cases hstep
          constructor
          exact hfound
      · cases hstep
  | fails index =>
      simp only [step] at hstep
      split at hstep
      · cases hstep
      · cases hstep
      · next hfetch =>
          cases hstep
          exact .fails hfetch
  | handleBatch =>
      simp only [step] at hstep
      split at hstep
      · next hworker hqueue =>
          cases hstep
          exact .handleBatch hworker hqueue
      · cases hstep
  | throws =>
      simp only [step] at hstep
      split at hstep
      · next hworker =>
          cases hstep
          exact .throws hworker
      · next hworker =>
          cases hstep
          exact .throws hworker
      · cases hstep

/-! ## What should hold -/

/-- No message fetched before the last seek has been passed to the handler since, and the first
request since then carries its offset. -/
structure Kept (state : PartitionSeek) : Prop where
  passed : state.passed = []
  nextRequest : ∀ offset ∈ state.nextRequest, offset = state.sought

/-- A fetch that prepares a request for the partition. -/
def isPreparing (fetch : SeekFetch) : Bool :=
  match fetch.phase with
  | .committing _ _ | .built _ _ => true
  | .passed | .resolving _ | .ready => fetch.leads
  | .begun | .sent _ | .ended => false

/-- A fetch whose answer concerns the partition. -/
def isAwaited (state : PartitionSeek) (fetch : SeekFetch) : Bool :=
  match fetch.phase with
  | .sent _ => true
  | .resolving _ => state.autoCommit
  | .begun | .committing _ _ | .passed | .ready | .built _ _ | .ended => false

/-- `OffsetManager.seek` waits for its commit. -/
def isCommitting (fetch : SeekFetch) : Bool :=
  match fetch.phase with
  | .committing _ _ => true
  | _ => false

/-- A seek is being committed. -/
def seeking (state : PartitionSeek) : Bool := state.fetches.any isCommitting

/-- The fetch pops the seek. -/
def pops (state : PartitionSeek) (index : Nat) : Bool :=
  state.seekOffset.isSome && (state.fetches[index]?).any fun fetch => fetch.leads

/-- No fetch prepares a request when `seek` is called. When a fetch pops the seek, no request of
the partition is on its way, no batch of it waits or is processed, and, if the seek is to be
committed, no offset of it is being fetched or committed. While the seek is committed, no request
for the partition or its offset is prepared, and no auto-commit has the partition; the commit
succeeds. -/
def Undisturbed (state : PartitionSeek) : Event → Prop
  | .seek _ => ∀ fetch ∈ state.fetches, isPreparing fetch = false
  | .turn index =>
      state.pops index = true →
        (∀ fetch ∈ state.fetches, state.isAwaited fetch = false) ∧ state.queue = [] ∧
          state.worker = none ∧ (state.autoCommit = true → state.commits = [])
  | .resolve _ => state.seeking = true → isInvalid state.committedOffset = false
  | .build index =>
      state.seeking = true →
        (state.committedOffset = none ∨ ∀ fetch ∈ state.fetches[index]?, fetch.leads = false)
  | .autoCommitOffsets => state.seeking = true → state.uncommittedOffset = none
  | .fails index => ∀ fetch ∈ state.fetches[index]?, isCommitting fetch = false
  | _ => True

/-- `Undisturbed` is decidable event by event. -/
instance (state : PartitionSeek) : ∀ event, Decidable (Undisturbed state event)
  | .seek _ => inferInstanceAs (Decidable (∀ fetch ∈ state.fetches, isPreparing fetch = false))
  | .turn _ => inferInstanceAs (Decidable (_ → (∀ fetch ∈ _, _ = false) ∧ _ ∧ _ ∧ (_ → _)))
  | .resolve _ => inferInstanceAs (Decidable (_ → _))
  | .build index =>
      inferInstanceAs (Decidable (_ → (_ ∨ ∀ fetch ∈ state.fetches[index]?, fetch.leads = false)))
  | .autoCommitOffsets => inferInstanceAs (Decidable (_ → _))
  | .fails index =>
      inferInstanceAs (Decidable (∀ fetch ∈ state.fetches[index]?, isCommitting fetch = false))
  | .start _ | .seekApplied _ | .seekAnswered _ | .resolveApplied _ | .resolveAnswered _ _
  | .send _ | .responds _ _ _ | .handleBatch | .nextMessage | .handlerReturns | .throws
  | .settled | .commitApplied _ | .commitAnswered _ | .commitFails _ => isTrue trivial

end PartitionSeek

end KafkaJs.Consumer
