import KafkaJs.Network.RequestConservation
import Mathlib.Logic.Relation

/-!
# What the request queue does between pushes

Every operation of the queue other than `push` is a sequence of a few moves, whatever the state of
the queue is and wherever an exception stops it. A property that every move keeps is kept by every
operation.
-/

namespace KafkaJs.Network

open KafkaJs.Data KafkaJs.Execution KafkaJs.Protocol

namespace RequestQueue

/-- A part of an operation. The first three happen to the first pending request. -/
inductive Move (queue : RequestQueue) : RequestQueue → Prop where
  | shift (ref : Nat) (rest : List Nat) (hpending : queue.pending = ref :: rest) :
      Move queue (queue.setPending rest)
  | launch (ref : Nat) (rest : List Nat) (hpending : queue.pending = ref :: rest) :
      Move queue ((queue.setPending rest).launch ref)
  | dispatch (now : Int) (ref : Nat) (rest : List Nat) (hpending : queue.pending = ref :: rest) :
      Move queue ((queue.setPending rest).dispatch now ref)
  | emit : Move queue queue.emitRequestQueueEmpty
  | schedule (now : Int) : Move queue (queue.scheduleCheckPendingRequests now)
  | unschedule : Move queue { queue with throttleCheckTimeoutId := none }
  | delete (id : Int) : Move queue (queue.deleteInflight id)
  | complete (ref : Nat) (response : Option Fulfillment) : Move queue (queue.complete ref response)
  | reject (ref : Nat) (error : KafkaError) : Move queue (queue.reject ref error)
  | clear : Move queue queue.clear
  | maybeThrottle (now : Int) (time : Option Int) : Move queue (queue.maybeThrottle now time)
  | scheduleRequestTimeoutCheck : Move queue queue.scheduleRequestTimeoutCheck
  | destroy : Move queue queue.destroy
  | wait (waiter : Nat) : Move queue (queue.waitForPendingRequests waiter)
  | resume (waiter : Nat) : Move queue (queue.resumeWaiter waiter)

/-- A sequence of moves. -/
abbrev Moves : RequestQueue → RequestQueue → Prop := Relation.ReflTransGen Move

/-- A move that takes a request to be sent only if there is room for it at the time. -/
def TimedMove (now : Int) (queue next : RequestQueue) : Prop :=
  Move queue next ∧
    (queue.canSendSocketRequestImmediately now = true ∨
      next.written = queue.written ∧
        next.inflight.entries.length ≤ queue.inflight.entries.length)

/-- A sequence of moves at one time. -/
abbrev TimedMoves (now : Int) : RequestQueue → RequestQueue → Prop :=
  Relation.ReflTransGen (TimedMove now)

/-- Timed moves are moves. -/
theorem TimedMoves.moves {now : Int} {queue next : RequestQueue} (h : TimedMoves now queue next) :
    Moves queue next := by
  induction h with
  | refl => exact .refl
  | tail _ hmove ih => exact ih.tail hmove.1

variable {queue base : RequestQueue} {now : Int} {ref : Nat}

/-! ## The requests -/

/-- A request in another state than the accepted ones makes the guard throw and change nothing. -/
theorem exec_throwIfInvalidState_error {accepted : List RequestState} {next : RequestState}
    (h : (queue.requests ref).state ∉ accepted) :
    ∃ error, Command.exec (throwIfInvalidState ref accepted next) queue = (.error error, queue) := by
  rw [throwIfInvalidState, Command.exec_bind, Command.exec_get]
  dsimp only
  rw [if_neg h]
  exact ⟨_, rfl⟩

/-- `completed` throws before it changes anything, or settles the request. -/
theorem completed_cases (queue : RequestQueue) (ref : Nat) (response : Option Fulfillment) :
    (∃ error, Command.exec (completed ref response) queue = (.error error, queue)) ∨
      Command.exec (completed ref response) queue = (.ok (), queue.complete ref response) := by
  by_cases h : (queue.requests ref).state = .sent
  · exact Or.inr (exec_completed h)
  · obtain ⟨error, herror⟩ := @exec_throwIfInvalidState_error queue ref [.sent] .completed
      (by simpa using h)
    rw [completed, Command.exec_bind, herror]
    exact Or.inl ⟨error, rfl⟩

/-- `rejected` throws before it changes anything, or settles the request. -/
theorem rejected_cases (queue : RequestQueue) (ref : Nat) (error : KafkaError) :
    (∃ thrown, Command.exec (rejected ref error) queue = (.error thrown, queue)) ∨
      Command.exec (rejected ref error) queue = (.ok (), queue.reject ref error) := by
  by_cases h : (queue.requests ref).state = .pending ∨ (queue.requests ref).state = .sent
  · exact Or.inr (exec_rejected h)
  · obtain ⟨thrown, hthrown⟩ := @exec_throwIfInvalidState_error queue ref [.pending, .sent] .rejected
      (by simpa using h)
    rw [rejected, Command.exec_bind, hthrown]
    exact Or.inl ⟨thrown, rfl⟩

/-- A request whose correlation id is taken is not sent. -/
theorem exec_sendSocketRequest_taken (hstate : (queue.requests ref).state = .pending)
    (htaken : queue.inflight.has (queue.requests ref).correlationId = true) :
    ∃ error, Command.exec (sendSocketRequest now ref) queue = (.error error, queue) := by
  rw [sendSocketRequest, send, Command.exec_bind, Command.exec_bind,
    exec_throwIfInvalidState (by simp [hstate])]
  dsimp only
  rw [Command.exec_bind, sendRequest, Command.exec_bind, Command.exec_get]
  dsimp only
  rw [htaken, if_pos rfl]
  exact ⟨_, rfl⟩

/-- Sending a request throws before it changes anything, throws when the request is among the
inflight ones, or sends it. -/
theorem sendSocketRequest_cases (queue : RequestQueue) (now : Int) (ref : Nat) :
    (∃ error, Command.exec (sendSocketRequest now ref) queue = (.error error, queue)) ∨
      (∃ error, Command.exec (sendSocketRequest now ref) queue = (.error error, queue.launch ref)) ∨
      Command.exec (sendSocketRequest now ref) queue = (.ok (), queue.dispatch now ref) := by
  by_cases hstate : (queue.requests ref).state = .pending
  · cases hfree : queue.inflight.has (queue.requests ref).correlationId with
    | false =>
        rw [exec_sendSocketRequest hstate hfree]
        cases (queue.requests ref).sendError with
        | some error => exact Or.inr (Or.inl ⟨error, rfl⟩)
        | none => exact Or.inr (Or.inr rfl)
    | true => exact Or.inl (exec_sendSocketRequest_taken hstate hfree)
  · left
    obtain ⟨error, herror⟩ := @exec_throwIfInvalidState_error queue ref [.pending] .sent
      (by simpa using hstate)
    rw [sendSocketRequest, send, Command.exec_bind, Command.exec_bind, herror]
    exact ⟨error, rfl⟩

/-! ## The operations -/

/-- Emitting that the queue is empty is a move. -/
theorem timed_emit : TimedMove now queue queue.emitRequestQueueEmpty := by
  refine ⟨.emit, Or.inr ?_⟩
  unfold emitRequestQueueEmpty
  split <;> exact ⟨rfl, Nat.le_refl _⟩

/-- Scheduling a check is a move. -/
theorem timed_schedule : TimedMove now queue (queue.scheduleCheckPendingRequests now) := by
  refine ⟨.schedule now, Or.inr ?_⟩
  unfold scheduleCheckPendingRequests
  split <;> exact ⟨rfl, Nat.le_refl _⟩

/-- Deleting a correlation id is a move. -/
theorem timed_delete (id : Int) : TimedMove now queue (queue.deleteInflight id) :=
  ⟨.delete id, Or.inr ⟨rfl, List.length_filter_le _ _⟩⟩

/-- Clearing the pending requests is a move. -/
theorem timed_clear : TimedMove now queue queue.clear :=
  ⟨.clear, Or.inr ⟨rfl, Nat.zero_le _⟩⟩

/-- Completing a request is a move. -/
theorem timed_complete (response : Option Fulfillment) :
    TimedMove now queue (queue.complete ref response) :=
  ⟨.complete ref response, Or.inr ⟨rfl, Nat.le_refl _⟩⟩

/-- Rejecting a request is a move. -/
theorem timed_reject (error : KafkaError) : TimedMove now queue (queue.reject ref error) :=
  ⟨.reject ref error, Or.inr ⟨rfl, Nat.le_refl _⟩⟩

/-- A command that is a sequence of moves at one time, whether it throws or not. -/
abbrev IsTimed (now : Int) (base : RequestQueue) (action : Action) : Prop :=
  Ensures (TimedMoves now base) action (fun _ => TimedMoves now base)
    (fun _ => TimedMoves now base)

/-- A command that makes one move. -/
theorem isTimed_modify {f : RequestQueue → RequestQueue}
    (h : ∀ queue, TimedMove now queue (f queue)) : IsTimed now base (modify f) :=
  ensures_modify fun state hstate => hstate.tail (h state)

/-- `completed` moves at most once. -/
theorem isTimed_completed (ref : Nat) (response : Option Fulfillment) :
    IsTimed now base (completed ref response) := by
  intro queue hqueue
  rcases completed_cases queue ref response with ⟨error, hexec⟩ | hexec
  · rw [hexec]
    exact hqueue
  · rw [hexec]
    exact hqueue.tail (timed_complete response)

/-- `rejected` moves at most once. -/
theorem isTimed_rejected (ref : Nat) (error : KafkaError) :
    IsTimed now base (rejected ref error) := by
  intro queue hqueue
  rcases rejected_cases queue ref error with ⟨thrown, hexec⟩ | hexec
  · rw [hexec]
    exact hqueue
  · rw [hexec]
    exact hqueue.tail (timed_reject error)

/-- Sending pending requests is a sequence of moves, also where it throws. -/
theorem isTimed_sendPending (now : Int) (rest : List Nat) :
    Ensures (fun queue => TimedMoves now base queue ∧ queue.pending = rest)
      (sendPending now rest) (fun _ => TimedMoves now base) (fun _ => TimedMoves now base) := by
  induction rest with
  | nil => exact ensures_pure fun _ hqueue => hqueue.1
  | cons ref rest ih =>
      rintro queue ⟨hqueue, hpending⟩
      rw [sendPending, Command.exec_bind, Command.exec_get]
      dsimp only
      by_cases hroom : queue.canSendSocketRequestImmediately now = true
      · rw [if_pos hroom, Command.exec_bind, Command.exec_modify]
        dsimp only
        rw [Command.exec_bind]
        rcases sendSocketRequest_cases (queue.setPending rest) now ref with
          ⟨error, hexec⟩ | ⟨error, hexec⟩ | hexec
        · rw [hexec]
          exact hqueue.tail ⟨.shift ref rest hpending, Or.inl hroom⟩
        · rw [hexec]
          exact hqueue.tail ⟨.launch ref rest hpending, Or.inl hroom⟩
        · rw [hexec]
          dsimp only
          rw [Command.exec_bind, Command.exec_modify]
          refine ih _ ⟨(hqueue.tail ⟨.dispatch now ref rest hpending, Or.inl hroom⟩).tail
            timed_emit, ?_⟩
          show ((queue.setPending rest).dispatch now ref).emitRequestQueueEmpty.pending = rest
          rw [emitRequestQueueEmpty_pending, dispatch_pending]
          rfl
      · rw [if_neg hroom]
        exact hqueue

/-- Checking the pending requests is a sequence of moves. -/
theorem isTimed_checkPendingRequests (now : Int) :
    IsTimed now base (checkPendingRequests now) := by
  intro queue hqueue
  rw [checkPendingRequests, Command.exec_bind, Command.exec_get]
  exact (isTimed_sendPending now queue.pending).bind
    (fun _ => isTimed_modify fun _ => timed_schedule) queue ⟨hqueue, rfl⟩

/-- Handling a response is a sequence of moves. -/
theorem isTimed_fulfillRequest (now : Int) (response : Fulfillment) :
    IsTimed now base (fulfillRequest now response) := by
  intro queue hqueue
  rw [fulfillRequest, Command.exec_bind, Command.exec_get]
  refine (isTimed_modify fun _ => timed_delete response.correlationId).bind (fun _ =>
    (isTimed_checkPendingRequests now).bind fun _ => ?_) queue hqueue
  cases queue.inflight.get? response.correlationId with
  | some ref =>
      exact (isTimed_completed ref (some response)).bind fun _ => isTimed_modify fun _ => timed_emit
  | none => exact isTimed_modify fun _ => timed_emit

/-- A timeout is a sequence of moves. -/
theorem isTimed_timeoutRequest (now : Int) (ref : Nat) :
    IsTimed now base (timeoutRequest now ref) := by
  intro queue hqueue
  rw [timeoutRequest, Command.exec_bind, Command.exec_get]
  exact (isTimed_modify fun _ => timed_delete (queue.requests ref).correlationId).bind (fun _ =>
    (isTimed_checkPendingRequests now).bind fun _ =>
      (isTimed_modify fun _ => timed_emit).bind fun _ => isTimed_rejected ref _) queue hqueue

/-- Rejecting all requests is a sequence of moves. -/
theorem isTimed_rejectAll (now : Int) (error : KafkaError) :
    IsTimed now base (rejectAll error) := by
  intro queue hqueue
  rw [rejectAll, Command.exec_bind, Command.exec_get]
  have hloop := @ensures_forM _ _ _ _ _ (fun _ => TimedMoves now base) (fun ref _ =>
    (isTimed_rejected ref error).bind fun _ =>
      isTimed_modify fun _ => timed_delete (queue.requests ref).correlationId)
    (queue.inflight.values ++ queue.pending)
  exact hloop.bind (fun _ => (isTimed_modify fun _ => timed_clear).bind fun _ =>
    isTimed_modify fun _ => timed_emit) queue hqueue

/-- The timer of the check makes moves only. -/
theorem isTimed_checkTimer (now : Int) : IsTimed now base (checkTimer now) :=
  (isTimed_modify fun _ => ⟨.unschedule, Or.inr ⟨rfl, Nat.le_refl _⟩⟩).bind
    fun _ => isTimed_checkPendingRequests now

/-- The state that an operation leaves is reached by moves at its time. -/
theorem IsTimed.perform {action : Action} (h : IsTimed now queue action) :
    TimedMoves now queue (queue.perform action) := by
  have hend := h queue .refl
  rw [RequestQueue.perform]
  rcases hexec : Command.exec action queue with ⟨error | value, after⟩
  · rw [hexec] at hend
    exact hend
  · rw [hexec] at hend
    exact hend

/-- The time of an event, where it matters. -/
def Event.time : Event → Option Int
  | .push now _ | .fulfillRequest now _ | .timeoutRequest now _ | .checkTimer now => some now
  | .maybeThrottle now _ => some now
  | _ => none

/-- Every event but a push. -/
theorem timed_step (now : Int) {event : Event} {next : RequestQueue}
    (hpush : ∀ now pushedRequest, event ≠ .push now pushedRequest)
    (hnow : ∀ time, event.time = some time → time = now)
    (hstep : step queue event = some next) : TimedMoves now queue next := by
  cases event with
  | push now pushedRequest => exact absurd rfl (hpush now pushedRequest)
  | fulfillRequest time response =>
      obtain rfl := hnow time rfl
      cases hstep
      exact (isTimed_fulfillRequest time response).perform
  | timeoutRequest time ref =>
      obtain rfl := hnow time rfl
      obtain ⟨-, hnext⟩ := Option.ite_none_right_eq_some.mp hstep
      cases hnext
      exact (isTimed_timeoutRequest time ref).perform
  | rejectAll error =>
      cases hstep
      exact (isTimed_rejectAll now error).perform
  | checkTimer time =>
      obtain rfl := hnow time rfl
      obtain ⟨-, hnext⟩ := Option.ite_none_right_eq_some.mp hstep
      cases hnext
      exact (isTimed_checkTimer time).perform
  | maybeThrottle time clientSideThrottleTime =>
      cases hstep
      refine .single ⟨.maybeThrottle time clientSideThrottleTime, Or.inr ?_⟩
      unfold RequestQueue.maybeThrottle
      split
      · split <;> exact ⟨rfl, Nat.le_refl _⟩
      · exact ⟨rfl, Nat.le_refl _⟩
  | scheduleRequestTimeoutCheck =>
      cases hstep
      refine .single ⟨.scheduleRequestTimeoutCheck, Or.inr ?_⟩
      unfold RequestQueue.scheduleRequestTimeoutCheck
      split <;> exact ⟨rfl, Nat.le_refl _⟩
  | destroy =>
      cases hstep
      exact .single ⟨.destroy, Or.inr ⟨rfl, Nat.le_refl _⟩⟩
  | waitForPendingRequests waiter =>
      cases hstep
      refine .single ⟨.wait waiter, Or.inr ?_⟩
      unfold waitForPendingRequests
      split <;> exact ⟨rfl, Nat.le_refl _⟩

/-- A command that is a sequence of moves, whether it throws or not. -/
abbrev IsMoves (base : RequestQueue) (action : Action) : Prop :=
  Ensures (Moves base) action (fun _ => Moves base) (fun _ => Moves base)

/-- Rejecting all requests makes moves, whatever the time is. -/
theorem isMoves_rejectAll (error : KafkaError) : IsMoves base (rejectAll error) := by
  intro queue hqueue
  have hmoves := isTimed_rejectAll 0 error queue .refl
  rcases hexec : Command.exec (rejectAll error) queue with ⟨thrown | value, after⟩
  · rw [hexec] at hmoves
    exact hqueue.trans (TimedMoves.moves hmoves)
  · rw [hexec] at hmoves
    exact hqueue.trans (TimedMoves.moves hmoves)

/-- The state that an operation leaves is reached by moves. -/
theorem IsMoves.perform {action : Action} (h : IsMoves queue action) :
    Moves queue (queue.perform action) := by
  have hend := h queue .refl
  rw [RequestQueue.perform]
  rcases hexec : Command.exec action queue with ⟨error | value, after⟩
  · rw [hexec] at hend
    exact hend
  · rw [hexec] at hend
    exact hend

/-- Every event but a push makes moves only. -/
theorem moves_step {event : Event} {next : RequestQueue}
    (hpush : ∀ now pushedRequest, event ≠ .push now pushedRequest)
    (hstep : step queue event = some next) : Moves queue next := by
  refine TimedMoves.moves (timed_step (event.time.getD 0) hpush (fun time htime => ?_) hstep)
  rw [htime, Option.getD_some]

/-- `push` creates a request, which it sends, or tries to, or appends to the pending ones. -/
theorem push_cases (queue : RequestQueue) (now : Int) (pushedRequest : PushedRequest) :
    (queue.canSendSocketRequestImmediately now = true ∧
      Command.exec (push now pushedRequest) queue =
        Command.exec (sendSocketRequest now queue.created)
          (queue.createSocketRequest now pushedRequest)) ∨
    (queue.canSendSocketRequestImmediately now = false ∧
      Command.exec (push now pushedRequest) queue =
        (.ok (), (scheduleCheckPendingRequests now
          ((queue.createSocketRequest now pushedRequest).setPending
            (queue.pending ++ [queue.created]))).emitRequestQueueEmpty)) := by
  rw [push, Command.exec_bind, Command.exec_get]
  dsimp only
  rw [Command.exec_bind, Command.exec_modify]
  cases hroom : queue.canSendSocketRequestImmediately now with
  | true => exact Or.inl ⟨rfl, rfl⟩
  | false => exact Or.inr ⟨rfl, rfl⟩

/-! ## An empty queue -/

/-- The queue is empty when the promise of a waiter has been resolved, or in the situation `down`.
-/
def Drained (down : Prop) (queue : RequestQueue) : Prop :=
  down ∨ queue.ready ≠ [] → queue.isEmpty = true

/-- The queue is empty if nothing is pending and nothing in flight. -/
theorem isEmpty_iff : queue.isEmpty = true ↔ queue.pending = [] ∧ queue.inflight.entries = [] :=
  decide_eq_true_iff

/-- With a pending request the queue is not empty. -/
theorem notEmpty_of_pending {rest : List Nat} (hpending : queue.pending = ref :: rest) :
    ¬ queue.isEmpty = true := by
  rw [isEmpty_iff, hpending]
  exact fun h => List.cons_ne_nil _ _ h.1

/-- Dispatching a request leaves `ready` alone. -/
@[simp] theorem dispatch_ready : (queue.dispatch now ref).ready = queue.ready := by
  unfold dispatch
  split <;> rfl

/-- Scheduling a check leaves `ready` alone. -/
theorem scheduleCheckPendingRequests_ready :
    (queue.scheduleCheckPendingRequests now).ready = queue.ready := by
  unfold scheduleCheckPendingRequests
  split <;> rfl

/-- Scheduling a check does not change whether the queue is empty. -/
theorem scheduleCheckPendingRequests_isEmpty :
    (queue.scheduleCheckPendingRequests now).isEmpty = queue.isEmpty := by
  unfold scheduleCheckPendingRequests
  split <;> rfl

/-- The situation in which nothing is asked may grow. -/
theorem Drained.mono {down down' : Prop} (h : Drained down queue) (himp : down' → down) :
    Drained down' queue := by
  rintro (hdown | hready)
  · exact h (Or.inl (himp hdown))
  · exact h (Or.inr hready)

/-- Waiting for the pending requests touches no request. -/
theorem waitForPendingRequests_fields (waiter : Nat) :
    (queue.waitForPendingRequests waiter).pending = queue.pending ∧
      (queue.waitForPendingRequests waiter).requests = queue.requests ∧
        (queue.waitForPendingRequests waiter).created = queue.created := by
  unfold waitForPendingRequests
  split <;> exact ⟨rfl, rfl, rfl⟩

/-- Emitting that the queue is empty keeps the queue drained. -/
theorem drained_emitRequestQueueEmpty {down : Prop} (h : Drained down queue) :
    Drained down queue.emitRequestQueueEmpty := by
  unfold emitRequestQueueEmpty
  split
  · next hempty => exact fun _ => hempty
  · exact h

/-- Nothing fills the queue between pushes: while a request is pending, no waiter has been called.
-/
theorem Move.drained {down : Prop} {next : RequestQueue} (hmove : Move queue next)
    (h : Drained down queue) : Drained down next := by
  cases hmove with
  | shift ref rest hpending =>
      -- a request was pending, so no waiter had been called
      intro hdown
      exact absurd (h hdown) (notEmpty_of_pending hpending)
  | launch ref rest hpending =>
      intro hdown
      exact absurd (h hdown) (notEmpty_of_pending hpending)
  | dispatch now ref rest hpending =>
      intro hdown
      rw [dispatch_ready] at hdown
      exact absurd (h hdown) (notEmpty_of_pending hpending)
  | emit => exact drained_emitRequestQueueEmpty h
  | schedule now =>
      intro hdown
      rw [scheduleCheckPendingRequests_ready] at hdown
      rw [scheduleCheckPendingRequests_isEmpty]
      exact h hdown
  | unschedule => exact h
  | delete id =>
      intro hdown
      obtain ⟨hpending, hinflight⟩ := isEmpty_iff.mp (h hdown)
      refine isEmpty_iff.mpr ⟨hpending, ?_⟩
      show queue.inflight.entries.filter _ = []
      rw [hinflight, List.filter_nil]
  | complete ref response => exact h
  | reject ref error => exact h
  | clear => exact fun _ => rfl
  | maybeThrottle now time =>
      unfold RequestQueue.maybeThrottle
      split
      · split <;> exact h
      · exact h
  | scheduleRequestTimeoutCheck =>
      unfold RequestQueue.scheduleRequestTimeoutCheck
      split <;> exact h
  | destroy => exact h
  | wait waiter =>
      unfold waitForPendingRequests
      split
      · next hempty => exact fun _ => hempty
      · exact h
  | resume waiter =>
      rintro (hdown | hready)
      · exact h (Or.inl hdown)
      · exact h (Or.inr fun hnil => hready (congrArg (List.erase · waiter) hnil))

/-- Moves keep the queue drained. -/
theorem Moves.drained {down : Prop} {next : RequestQueue} (hmoves : Moves queue next)
    (h : Drained down queue) : Drained down next := by
  induction hmoves with
  | refl => exact h
  | tail _ hmove ih => exact hmove.drained ih

/-! ## What is sent -/

/-- Since `base`, only requests that are `allowed` have been sent, and only such are pending. -/
structure Sends (allowed : Nat → Prop) (base queue : RequestQueue) : Prop where
  written : ∃ refs, queue.written = base.written ++ refs ∧ ∀ ref ∈ refs, allowed ref
  pending : ∀ ref ∈ queue.pending, allowed ref
  entries : ∀ ref, (queue.requests ref).entry = (base.requests ref).entry
  created : queue.created = base.created

/-- A queue that has not moved has sent nothing. -/
theorem Sends.refl {allowed : Nat → Prop} (h : ∀ ref ∈ queue.pending, allowed ref) :
    Sends allowed queue queue :=
  ⟨⟨[], (List.append_nil _).symm, nofun⟩, h, fun _ => rfl, rfl⟩

/-- A change of a request that is not one of its entry. -/
theorem entry_update {other : Nat} {change : SocketRequest → SocketRequest}
    (h : (change (queue.requests ref)).entry = (queue.requests ref).entry) :
    ((queue.update ref change).requests other).entry = (queue.requests other).entry := by
  show (Function.update queue.requests ref _ other).entry = _
  by_cases heq : other = ref
  · subst heq
    rw [Function.update_self, h]
  · rw [Function.update_of_ne heq]

/-- Sending a request keeps the entries. -/
theorem sent_entry {other : Nat} :
    ((queue.sent now ref).requests other).entry = (queue.requests other).entry := by
  show (({ queue.launch ref with written := queue.written ++ [ref] }.update ref fun request =>
    { request with sentAt := some now, state := .sent }).requests other).entry = _
  exact entry_update rfl

/-- Completing a request keeps the entries. -/
theorem complete_entry {other : Nat} {response : Option Fulfillment} :
    ((queue.complete ref response).requests other).entry = (queue.requests other).entry := by
  show ((queue.update ref fun request => { request with state := .completed }).requests
    other).entry = _
  exact entry_update rfl

/-- Rejecting a request keeps the entries. -/
theorem reject_entry {other : Nat} {error : KafkaError} :
    ((queue.reject ref error).requests other).entry = (queue.requests other).entry := by
  show ((queue.update ref fun request => { request with state := .rejected }).requests
    other).entry = _
  exact entry_update rfl

/-- Dispatching a request keeps the entries. -/
theorem dispatch_entry {other : Nat} :
    ((queue.dispatch now ref).requests other).entry = (queue.requests other).entry := by
  unfold dispatch
  split
  · exact sent_entry
  · exact complete_entry.trans sent_entry

/-- Dispatching a request creates none. -/
theorem dispatch_created : (queue.dispatch now ref).created = queue.created := by
  unfold dispatch
  split <;> rfl

/-- Dispatching a request writes it. -/
theorem dispatch_written : (queue.dispatch now ref).written = queue.written ++ [ref] := by
  unfold dispatch
  split <;> rfl

/-- A move sends pending requests only. -/
theorem Move.sends {allowed : Nat → Prop} {next : RequestQueue} (hmove : Move queue next)
    (h : Sends allowed base queue) : Sends allowed base next := by
  obtain ⟨⟨refs, hwritten, hrefs⟩, hpendings, hentries, hcreated⟩ := h
  -- a request that leaves the queue leaves the others in it
  have hrest : ∀ {ref rest}, queue.pending = ref :: rest → ∀ other ∈ rest, allowed other := by
    intro ref rest hpending other hother
    exact hpendings other (hpending ▸ List.mem_cons_of_mem ref hother)
  cases hmove with
  | shift ref rest hpending => exact ⟨⟨refs, hwritten, hrefs⟩, hrest hpending, hentries, hcreated⟩
  | launch ref rest hpending => exact ⟨⟨refs, hwritten, hrefs⟩, hrest hpending, hentries, hcreated⟩
  | dispatch now ref rest hpending =>
      refine ⟨⟨refs ++ [ref], ?_, ?_⟩, ?_, fun other => dispatch_entry.trans (hentries other),
        dispatch_created.trans hcreated⟩
      · rw [dispatch_written, ← List.append_assoc, ← hwritten]
        rfl
      · intro other hother
        rcases List.mem_append.mp hother with hold | hnew
        · exact hrefs other hold
        · rw [List.mem_singleton] at hnew
          exact hnew ▸ hpendings ref (hpending ▸ List.mem_cons_self)
      · rw [dispatch_pending]
        exact hrest hpending
  | emit =>
      unfold emitRequestQueueEmpty
      split <;> exact ⟨⟨refs, hwritten, hrefs⟩, hpendings, hentries, hcreated⟩
  | schedule now =>
      unfold scheduleCheckPendingRequests
      split <;> exact ⟨⟨refs, hwritten, hrefs⟩, hpendings, hentries, hcreated⟩
  | unschedule => exact ⟨⟨refs, hwritten, hrefs⟩, hpendings, hentries, hcreated⟩
  | delete id => exact ⟨⟨refs, hwritten, hrefs⟩, hpendings, hentries, hcreated⟩
  | complete ref response =>
      exact ⟨⟨refs, hwritten, hrefs⟩, hpendings, fun other => complete_entry.trans (hentries other),
        hcreated⟩
  | reject ref error =>
      exact ⟨⟨refs, hwritten, hrefs⟩, hpendings, fun other => reject_entry.trans (hentries other),
        hcreated⟩
  | clear => exact ⟨⟨refs, hwritten, hrefs⟩, nofun, hentries, hcreated⟩
  | maybeThrottle now time =>
      unfold RequestQueue.maybeThrottle
      split
      · split <;> exact ⟨⟨refs, hwritten, hrefs⟩, hpendings, hentries, hcreated⟩
      · exact ⟨⟨refs, hwritten, hrefs⟩, hpendings, hentries, hcreated⟩
  | scheduleRequestTimeoutCheck =>
      unfold RequestQueue.scheduleRequestTimeoutCheck
      split <;> exact ⟨⟨refs, hwritten, hrefs⟩, hpendings, hentries, hcreated⟩
  | destroy => exact ⟨⟨refs, hwritten, hrefs⟩, hpendings, hentries, hcreated⟩
  | wait waiter =>
      unfold waitForPendingRequests
      split <;> exact ⟨⟨refs, hwritten, hrefs⟩, hpendings, hentries, hcreated⟩
  | resume waiter => exact ⟨⟨refs, hwritten, hrefs⟩, hpendings, hentries, hcreated⟩

/-- Moves send only what was pending before them. -/
theorem Moves.sends {allowed : Nat → Prop} {next : RequestQueue} (hmoves : Moves queue next)
    (h : Sends allowed base queue) : Sends allowed base next := by
  induction hmoves with
  | refl => exact h
  | tail _ hmove ih => exact hmove.sends ih

/-! ## Pushes -/

variable {pushedRequest : PushedRequest} {next : RequestQueue}

/-- A push sends a request or tries to, or appends it to the pending ones; then nothing else of what
it does concerns the requests. -/
theorem push_outcomes (hstep : step queue (.push now pushedRequest) = some next) :
    let base := queue.createSocketRequest now pushedRequest
    (∃ settlements, next = { base with settlements }) ∨
    (∃ settlements, next = { base.launch queue.created with settlements }) ∨
    next = base.dispatch now queue.created ∨
    next = ((base.setPending (queue.pending ++ [queue.created])).scheduleCheckPendingRequests
      now).emitRequestQueueEmpty := by
  intro base
  rw [step] at hstep
  rcases push_cases queue now pushedRequest with ⟨-, hexec⟩ | ⟨-, hexec⟩
  · rcases sendSocketRequest_cases base now queue.created with
      ⟨error, hsend⟩ | ⟨error, hsend⟩ | hsend
    · rw [hexec, hsend] at hstep
      cases hstep
      exact Or.inl ⟨_, rfl⟩
    · rw [hexec, hsend] at hstep
      cases hstep
      exact Or.inr (Or.inl ⟨_, rfl⟩)
    · rw [hexec, hsend] at hstep
      cases hstep
      exact Or.inr (Or.inr (Or.inl rfl))
  · rw [hexec] at hstep
    cases hstep
    exact Or.inr (Or.inr (Or.inr rfl))

/-- A push sends at most the request that it creates, and leaves at most this one pending. -/
theorem sends_push (hstep : step queue (.push now pushedRequest) = some next) :
    Sends (fun ref => ref ∈ queue.pending ∨ ref = queue.created)
      (queue.createSocketRequest now pushedRequest) next := by
  have hbase : Sends (fun ref => ref ∈ queue.pending ∨ ref = queue.created)
      (queue.createSocketRequest now pushedRequest)
      (queue.createSocketRequest now pushedRequest) := Sends.refl fun _ hmem => Or.inl hmem
  rcases push_outcomes hstep with ⟨settlements, rfl⟩ | ⟨settlements, rfl⟩ | rfl | rfl
  · exact ⟨hbase.written, hbase.pending, hbase.entries, hbase.created⟩
  · exact ⟨hbase.written, hbase.pending, hbase.entries, hbase.created⟩
  · refine ⟨⟨[queue.created], dispatch_written, ?_⟩, ?_, fun _ => dispatch_entry,
      dispatch_created⟩
    · intro ref href
      exact Or.inr (List.mem_singleton.mp href)
    · rw [dispatch_pending]
      exact fun _ hmem => Or.inl hmem
  · have hpending : Sends (fun ref => ref ∈ queue.pending ∨ ref = queue.created)
        (queue.createSocketRequest now pushedRequest)
        ((queue.createSocketRequest now pushedRequest).setPending
          (queue.pending ++ [queue.created])) := by
      refine ⟨hbase.written, ?_, hbase.entries, hbase.created⟩
      intro ref href
      rcases List.mem_append.mp href with hold | hnew
      · exact Or.inl hold
      · exact Or.inr (List.mem_singleton.mp hnew)
    exact (Move.emit).sends ((Move.schedule now).sends hpending)

/-- No waiter has been called, or the push sends a request that expects no response. -/
def Undisturbed (queue : RequestQueue) (now : Int) (expectResponse : Bool)
    (sendError : Option KafkaError) : Prop :=
  queue.ready = [] ∨ (expectResponse = false ∧ sendError = none ∧
    queue.canSendSocketRequestImmediately now = true)

/-- `Undisturbed` is decidable as its two cases are. -/
instance (queue : RequestQueue) (now : Int) (expectResponse : Bool)
    (sendError : Option KafkaError) : Decidable (queue.Undisturbed now expectResponse sendError) :=
  inferInstanceAs (Decidable (_ ∨ _))

/-- A request that expects no response is gone from an empty queue when it has been sent. -/
theorem isEmpty_push (hempty : queue.isEmpty = true) (hexpect : pushedRequest.expectResponse = false)
    (hsend : pushedRequest.sendError = none)
    (hroom : queue.canSendSocketRequestImmediately now = true)
    (hstep : step queue (.push now pushedRequest) = some next) : next.isEmpty = true := by
  obtain ⟨hpending, hinflight⟩ := isEmpty_iff.mp hempty
  let base := queue.createSocketRequest now pushedRequest
  have hstate : (base.requests queue.created).state = .pending := by
    show (Function.update queue.requests queue.created _ queue.created).state = .pending
    rw [Function.update_self]
  have hexpected : (base.requests queue.created).expectResponse = false :=
    (congrArg SocketRequest.expectResponse (Function.update_self ..)).trans hexpect
  have herror : (base.requests queue.created).sendError = none :=
    (congrArg SocketRequest.sendError (Function.update_self ..)).trans hsend
  have hfree : base.inflight.has (base.requests queue.created).correlationId = false := by
    show (queue.inflight.get? _).isSome = false
    rw [InsertionMap.get?, hinflight]
    rfl
  have hsent : Command.exec (sendSocketRequest now queue.created) base =
      (.ok (), base.dispatch now queue.created) := by
    rw [exec_sendSocketRequest hstate hfree, herror]
  rw [step] at hstep
  rcases push_cases queue now pushedRequest with ⟨-, hexec⟩ | ⟨hfull, -⟩
  · rw [hexec, hsent] at hstep
    cases hstep
    have hdispatch : base.dispatch now queue.created =
        ((base.sent now queue.created).deleteInflight
          (base.requests queue.created).correlationId).complete queue.created none := by
      rw [dispatch, if_neg (by simp [hexpected])]
    rw [hdispatch]
    refine isEmpty_iff.mpr ⟨hpending, ?_⟩
    exact (InsertionMap.entries_delete_set hfree queue.created).trans hinflight
  · rw [hroom] at hfull
    cases hfull

/-- A push that leaves the waiters undisturbed. -/
theorem drained_push {down : Prop} (h : Drained down queue) (hdown : ¬ down)
    (hundisturbed : queue.Undisturbed now pushedRequest.expectResponse pushedRequest.sendError)
    (hstep : step queue (.push now pushedRequest) = some next) : Drained down next := by
  by_cases hready : queue.ready = []
  · have hquiet : ∀ {other : RequestQueue}, other.ready = queue.ready → Drained down other := by
      rintro other hother (hthere | hcalled)
      · exact absurd hthere hdown
      · exact absurd (hother.trans hready) hcalled
    rcases push_outcomes hstep with ⟨settlements, rfl⟩ | ⟨settlements, rfl⟩ | rfl | rfl
    · exact hquiet rfl
    · exact hquiet rfl
    · exact hquiet dispatch_ready
    · exact drained_emitRequestQueueEmpty (hquiet scheduleCheckPendingRequests_ready)
  · obtain ⟨hexpect, hsend, hroom⟩ := hundisturbed.resolve_left hready
    exact fun _ => isEmpty_push (h (Or.inr hready)) hexpect hsend hroom hstep

end RequestQueue

end KafkaJs.Network
