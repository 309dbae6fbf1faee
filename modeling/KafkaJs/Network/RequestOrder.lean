import KafkaJs.Network.RequestMoves
import Mathlib.Data.List.Induction

/-!
# The order and the limits of sending

Requests are numbered as they are pushed, so a queue keeps their order if the requests that it has
sent, followed by those that are pending, are numbered in ascending order: `InOrder`. Pending
requests are sent from the front, so every move keeps this; `push` has a path of its own that does
not look at the pending requests. `Overtakes` is what goes wrong there: the throttle is over, or
there is room, while pending requests still wait for the timer. `ordered_iff` says that a run keeps
the order exactly if no push does this; the limit of inflight requests and the silence while the
queue is throttled hold in every run.
-/

namespace KafkaJs.Network

open KafkaJs.Data KafkaJs.Execution KafkaJs.Protocol

namespace RequestQueue

variable {queue next : RequestQueue} {now : Int} {ref : Nat} {pushedRequest : PushedRequest}

/-- The sent requests followed by the pending ones are in the order in which they were pushed. -/
def InOrder (queue : RequestQueue) : Prop :=
  (queue.written ++ queue.pending).Pairwise (· < ·)

/-- The number of inflight requests respects the limit, where there is one. -/
def WithinLimit (queue : RequestQueue) : Prop :=
  ∀ limit ∈ queue.maxInFlightRequests, queue.inflight.entries.length ≤ limit

/-- The requests that are sent or pending have been created. -/
def Created (queue : RequestQueue) : Prop :=
  ∀ ref ∈ queue.written ++ queue.pending, ref < queue.created

/-- `InOrder` is decidable by comparing neighbours. -/
instance (queue : RequestQueue) : Decidable queue.InOrder :=
  inferInstanceAs (Decidable (List.Pairwise _ _))

/-! ## Moves -/

/-- Setting a key adds at most one entry. -/
theorem length_set_le (map : InsertionMap Int Nat) (key : Int) (value : Nat) :
    (map.set key value).entries.length ≤ map.entries.length + 1 := by
  unfold InsertionMap.set
  split
  · show (InsertionMap.replace key value map.entries).length ≤ _
    rw [InsertionMap.replace, List.length_map]
    exact Nat.le_succ _
  · show (map.entries ++ [(key, value)]).length ≤ _
    rw [List.length_append, List.length_singleton]

/-- What no move does: it neither changes the limit, nor takes back a throttle, nor creates a
request, nor brings in or reorders requests, nor adds more than one inflight request. -/
structure Frame (queue next : RequestQueue) : Prop where
  limit : next.maxInFlightRequests = queue.maxInFlightRequests
  throttled : queue.throttledUntil ≤ next.throttledUntil
  created : next.created = queue.created
  line : (next.written ++ next.pending).Sublist (queue.written ++ queue.pending)
  inflight : next.inflight.entries.length ≤ queue.inflight.entries.length + 1

/-- A queue that has not moved keeps its frame. -/
theorem Frame.refl (queue : RequestQueue) : Frame queue queue :=
  ⟨rfl, Int.le_refl _, rfl, List.Sublist.refl _, Nat.le_succ _⟩

/-- A move that leaves the first four fields as they are and adds no inflight request. -/
theorem Frame.of_eq (hlimit : next.maxInFlightRequests = queue.maxInFlightRequests)
    (hthrottled : next.throttledUntil = queue.throttledUntil)
    (hcreated : next.created = queue.created) (hwritten : next.written = queue.written)
    (hpending : next.pending.Sublist queue.pending)
    (hinflight : next.inflight.entries.length ≤ queue.inflight.entries.length) :
    Frame queue next := by
  refine ⟨hlimit, Int.le_of_eq hthrottled.symm, hcreated, ?_, Nat.le_succ_of_le hinflight⟩
  rw [hwritten]
  exact List.Sublist.append_left hpending _

/-- Dispatching a request keeps the limit. -/
theorem dispatch_limit :
    (queue.dispatch now ref).maxInFlightRequests = queue.maxInFlightRequests := by
  unfold dispatch
  split <;> rfl

/-- Dispatching a request keeps the throttling. -/
theorem dispatch_throttledUntil :
    (queue.dispatch now ref).throttledUntil = queue.throttledUntil := by
  unfold dispatch
  split <;> rfl

/-- Dispatching a request puts at most one in flight. -/
theorem dispatch_inflight_le :
    (queue.dispatch now ref).inflight.entries.length ≤ queue.inflight.entries.length + 1 := by
  have hset := length_set_le queue.inflight (queue.requests ref).correlationId ref
  unfold dispatch
  split
  · exact hset
  · exact (List.length_filter_le _ _).trans hset

/-- A move keeps the frame. -/
theorem Move.frame (hmove : Move queue next) : Frame queue next := by
  cases hmove with
  | shift ref rest hpending =>
      exact .of_eq rfl rfl rfl rfl (hpending ▸ List.sublist_cons_self ref rest) (Nat.le_refl _)
  | launch ref rest hpending =>
      refine ⟨rfl, Int.le_refl _, rfl, ?_, length_set_le ..⟩
      show (queue.written ++ rest).Sublist (queue.written ++ queue.pending)
      rw [hpending]
      exact List.Sublist.append_left (List.sublist_cons_self ref rest) _
  | dispatch now ref rest hpending =>
      refine ⟨dispatch_limit,
        Int.le_of_eq (@dispatch_throttledUntil (queue.setPending rest) now ref).symm,
        dispatch_created, ?_, dispatch_inflight_le⟩
      rw [dispatch_written, dispatch_pending]
      show (queue.written ++ [ref] ++ rest).Sublist (queue.written ++ queue.pending)
      rw [hpending, List.append_assoc]
      exact List.Sublist.refl _
  | emit =>
      unfold emitRequestQueueEmpty
      split <;> exact .of_eq rfl rfl rfl rfl (List.Sublist.refl _) (Nat.le_refl _)
  | schedule now =>
      unfold scheduleCheckPendingRequests
      split <;> exact .of_eq rfl rfl rfl rfl (List.Sublist.refl _) (Nat.le_refl _)
  | unschedule => exact .of_eq rfl rfl rfl rfl (List.Sublist.refl _) (Nat.le_refl _)
  | delete id => exact .of_eq rfl rfl rfl rfl (List.Sublist.refl _) (List.length_filter_le _ _)
  | complete ref response => exact .of_eq rfl rfl rfl rfl (List.Sublist.refl _) (Nat.le_refl _)
  | reject ref error => exact .of_eq rfl rfl rfl rfl (List.Sublist.refl _) (Nat.le_refl _)
  | clear => exact .of_eq rfl rfl rfl rfl (List.nil_sublist _) (Nat.zero_le _)
  | maybeThrottle now time =>
      unfold RequestQueue.maybeThrottle
      split
      · split
        · exact ⟨rfl, Int.le_max_right .., rfl, List.Sublist.refl _, Nat.le_succ _⟩
        · exact .refl queue
      · exact .refl queue
  | scheduleRequestTimeoutCheck =>
      unfold RequestQueue.scheduleRequestTimeoutCheck
      split <;> exact .of_eq rfl rfl rfl rfl (List.Sublist.refl _) (Nat.le_refl _)
  | destroy => exact .of_eq rfl rfl rfl rfl (List.Sublist.refl _) (Nat.le_refl _)
  | wait waiter =>
      unfold waitForPendingRequests
      split <;> exact .of_eq rfl rfl rfl rfl (List.Sublist.refl _) (Nat.le_refl _)
  | resume waiter => exact .of_eq rfl rfl rfl rfl (List.Sublist.refl _) (Nat.le_refl _)

/-- What keeps its frame stays in order. -/
theorem Frame.inOrder (h : Frame queue next) (horder : queue.InOrder) : next.InOrder :=
  horder.sublist h.line

/-- What keeps its frame stays created. -/
theorem Frame.createds (h : Frame queue next) (hcreated : queue.Created) : next.Created := by
  intro ref href
  rw [h.created]
  exact hcreated ref (h.line.subset href)

/-- A queue that has room for another request stays within its limit. -/
theorem withinLimit_of_room (hroom : queue.canSendSocketRequestImmediately now = true)
    (hlimit : next.maxInFlightRequests = queue.maxInFlightRequests)
    (hinflight : next.inflight.entries.length ≤ queue.inflight.entries.length + 1) :
    next.WithinLimit := by
  intro limit hmem
  rw [hlimit] at hmem
  have hfree : ¬ ((∃ limit ∈ queue.maxInFlightRequests, limit ≤ queue.inflight.entries.length) ∨
      now < queue.throttledUntil) := of_decide_eq_true hroom
  have hlt : ¬ limit ≤ queue.inflight.entries.length := fun hle => hfree (Or.inl ⟨limit, hmem, hle⟩)
  omega

/-- A move keeps the limit. -/
theorem TimedMove.withinLimit (hmove : TimedMove now queue next) (h : queue.WithinLimit) :
    next.WithinLimit := by
  obtain ⟨hmove, hroom | ⟨-, hinflight⟩⟩ := hmove
  · exact withinLimit_of_room hroom hmove.frame.limit hmove.frame.inflight
  · intro limit hmem
    rw [hmove.frame.limit] at hmem
    exact hinflight.trans (h limit hmem)

/-- A throttled queue has no room. -/
theorem canSend_eq_false (hthrottled : now < queue.throttledUntil) :
    queue.canSendSocketRequestImmediately now = false := by
  rw [canSendSocketRequestImmediately, roomFor]
  exact decide_eq_false fun hfree => hfree (Or.inr hthrottled)

/-- Moves of a throttled queue send nothing. -/
theorem TimedMoves.silent (hmoves : TimedMoves now queue next)
    (hthrottled : now < queue.throttledUntil) :
    next.written = queue.written ∧ now < next.throttledUntil := by
  induction hmoves with
  | refl => exact ⟨rfl, hthrottled⟩
  | tail _ hmove ih =>
      obtain ⟨hwritten, hlate⟩ := ih
      obtain ⟨hmove, hroom | ⟨hsame, -⟩⟩ := hmove
      · rw [canSend_eq_false hlate] at hroom
        cases hroom
      · exact ⟨hsame.trans hwritten, Int.lt_of_lt_of_le hlate hmove.frame.throttled⟩

/-! ## Pushes -/

/-- A push that sends its request without putting it among the pending ones. -/
def SendsAtOnce (queue : RequestQueue) (now : Int) (pushedRequest : PushedRequest) : Prop :=
  queue.canSendSocketRequestImmediately now = true ∧
    queue.inflight.has pushedRequest.entry.correlationId = false ∧
    pushedRequest.sendError = none

/-- A push that sends its request before the pending ones. -/
def Overtakes (queue : RequestQueue) (now : Int) (pushedRequest : PushedRequest) : Prop :=
  queue.pending ≠ [] ∧ SendsAtOnce queue now pushedRequest

/-- `Overtakes` is decidable by the state of the queue. -/
instance (queue : RequestQueue) (now : Int) (pushedRequest : PushedRequest) :
    Decidable (queue.Overtakes now pushedRequest) :=
  inferInstanceAs (Decidable (_ ∧ _ ∧ _ ∧ _))

/-- What a push leaves where it does not send its request: the request is the last of the pending
ones, or its sending has thrown. -/
structure Unsent (queue : RequestQueue) (now : Int) (next : RequestQueue) : Prop where
  limit : next.maxInFlightRequests = queue.maxInFlightRequests
  throttled : next.throttledUntil = queue.throttledUntil
  created : next.created = queue.created + 1
  written : next.written = queue.written
  pending : next.pending = queue.pending ∨ next.pending = queue.pending ++ [queue.created]
  inflight : next.inflight.entries.length ≤ queue.inflight.entries.length ∨
    queue.canSendSocketRequestImmediately now = true ∧
      next.inflight.entries.length ≤ queue.inflight.entries.length + 1

/-- A request that is put at the end of the queue is not sent. -/
theorem unsent_enqueue :
    Unsent queue now (scheduleCheckPendingRequests now
      ((queue.createSocketRequest now pushedRequest).setPending
        (queue.pending ++ [queue.created]))).emitRequestQueueEmpty := by
  unfold emitRequestQueueEmpty scheduleCheckPendingRequests
  split <;> split <;> exact ⟨rfl, rfl, rfl, rfl, Or.inr rfl, Or.inl (Nat.le_refl _)⟩

/-- A push sends its request at once, or puts it behind the pending ones. -/
theorem push_sends (hstep : step queue (.push now pushedRequest) = some next) :
    SendsAtOnce queue now pushedRequest ∧
        next = (queue.createSocketRequest now pushedRequest).dispatch now queue.created ∨
      ¬ SendsAtOnce queue now pushedRequest ∧ Unsent queue now next := by
  rw [step] at hstep
  have hrequest : ((queue.createSocketRequest now pushedRequest).requests queue.created).state =
      .pending ∧
      ((queue.createSocketRequest now pushedRequest).requests queue.created).correlationId =
        pushedRequest.entry.correlationId ∧
      ((queue.createSocketRequest now pushedRequest).requests queue.created).sendError =
        pushedRequest.sendError := by
    simp [createSocketRequest, SocketRequest.correlationId]
  obtain ⟨hstate, hid, herror⟩ := hrequest
  rcases push_cases queue now pushedRequest with ⟨hroom, hexec⟩ | ⟨hroom, hexec⟩
  · cases hfree : queue.inflight.has pushedRequest.entry.correlationId with
    | false =>
        have hsend := @exec_sendSocketRequest _ now _ hstate (hid.symm ▸ hfree)
        rw [hexec, hsend, herror] at hstep
        cases hthrows : pushedRequest.sendError with
        | none =>
            rw [hthrows] at hstep
            cases hstep
            exact Or.inl ⟨⟨hroom, hfree, hthrows⟩, rfl⟩
        | some error =>
            rw [hthrows] at hstep
            cases hstep
            refine Or.inr ⟨fun hsends => ?_, rfl, rfl, rfl, rfl, Or.inl rfl,
              Or.inr ⟨hroom, length_set_le ..⟩⟩
            rw [hsends.2.2] at hthrows
            cases hthrows
    | true =>
        obtain ⟨error, hsend⟩ := @exec_sendSocketRequest_taken _ now _ hstate (hid.symm ▸ hfree)
        rw [hexec, hsend] at hstep
        cases hstep
        refine Or.inr ⟨fun hsends => ?_, rfl, rfl, rfl, rfl, Or.inl rfl, Or.inl (Nat.le_refl _)⟩
        rw [hsends.2.1] at hfree
        cases hfree
  · rw [hexec] at hstep
    cases hstep
    refine Or.inr ⟨fun hsends => ?_, unsent_enqueue⟩
    rw [hsends.1] at hroom
    cases hroom

/-! ## Steps -/

/-- Moves write and keep only what was created. -/
theorem Created.moves (h : queue.Created) (hmoves : Moves queue next) : next.Created := by
  induction hmoves with
  | refl => exact h
  | tail _ hmove ih => exact hmove.frame.createds ih

/-- Moves write in order. -/
theorem InOrder.moves (h : queue.InOrder) (hmoves : Moves queue next) : next.InOrder := by
  induction hmoves with
  | refl => exact h
  | tail _ hmove ih => exact hmove.frame.inOrder ih

/-- Moves keep the limit. -/
theorem WithinLimit.moves (h : queue.WithinLimit) (hmoves : TimedMoves now queue next) :
    next.WithinLimit := by
  induction hmoves with
  | refl => exact h
  | tail _ hmove ih => exact hmove.withinLimit ih

/-- A push that does not send its request puts the new request behind all others, or nowhere. -/
theorem Unsent.line (h : Unsent queue now next) :
    (next.written ++ next.pending).Sublist (queue.written ++ queue.pending ++ [queue.created]) := by
  rw [h.written]
  rcases h.pending with hpending | hpending
  · rw [hpending]
    exact List.sublist_append_left _ _
  · rw [hpending, List.append_assoc]

/-- A new request comes after all others. -/
theorem pairwise_concat_created (hcreated : queue.Created) (horder : queue.InOrder) :
    (queue.written ++ queue.pending ++ [queue.created]).Pairwise (· < ·) := by
  rw [List.pairwise_append]
  refine ⟨horder, List.pairwise_singleton _ _, fun ref href other hother => ?_⟩
  rw [List.mem_singleton.mp hother]
  exact hcreated ref href

/-- Every event writes and keeps only what was created. -/
theorem created_step {event : Event} (h : queue.Created) (hstep : step queue event = some next) :
    next.Created := by
  by_cases hpush : ∃ now pushedRequest, event = .push now pushedRequest
  · obtain ⟨now, pushedRequest, rfl⟩ := hpush
    rcases push_sends hstep with ⟨-, rfl⟩ | ⟨-, hunsent⟩
    · intro ref href
      rw [dispatch_written, dispatch_pending] at href
      rw [dispatch_created]
      show ref < queue.created + 1
      change ref ∈ queue.written ++ [queue.created] ++ queue.pending at href
      simp only [List.mem_append, List.mem_singleton] at href
      rcases href with (hwritten | hnew) | hpending
      · exact Nat.lt_succ_of_lt (h ref (List.mem_append_left _ hwritten))
      · exact hnew ▸ Nat.lt_succ_self _
      · exact Nat.lt_succ_of_lt (h ref (List.mem_append_right _ hpending))
    · intro ref href
      rw [hunsent.created]
      rcases List.mem_append.mp (hunsent.line.subset href) with hold | hnew
      · exact Nat.lt_succ_of_lt (h ref hold)
      · exact List.mem_singleton.mp hnew ▸ Nat.lt_succ_self _
  · exact h.moves (moves_step (fun now pushedRequest heq => hpush ⟨now, pushedRequest, heq⟩) hstep)

/-- Every event but a push that overtakes keeps the order. -/
theorem inOrder_step {event : Event} (hcreated : queue.Created) (h : queue.InOrder)
    (hovertakes : ∀ now pushedRequest, event = .push now pushedRequest →
      ¬ Overtakes queue now pushedRequest)
    (hstep : step queue event = some next) : next.InOrder := by
  by_cases hpush : ∃ now pushedRequest, event = .push now pushedRequest
  · obtain ⟨now, pushedRequest, rfl⟩ := hpush
    have hline := pairwise_concat_created hcreated h
    rcases push_sends hstep with ⟨hsends, rfl⟩ | ⟨-, hunsent⟩
    · have hnone : queue.pending = [] := by
        by_contra hpending
        exact hovertakes now pushedRequest rfl ⟨hpending, hsends⟩
      rw [hnone, List.append_nil] at hline
      rw [InOrder, dispatch_written, dispatch_pending]
      show (queue.written ++ [queue.created] ++ queue.pending).Pairwise (· < ·)
      rwa [hnone, List.append_nil]
    · exact hline.sublist hunsent.line
  · exact h.moves (moves_step (fun now pushedRequest heq => hpush ⟨now, pushedRequest, heq⟩) hstep)

/-- Every event keeps the limit. -/
theorem withinLimit_step {event : Event} (h : queue.WithinLimit)
    (hstep : step queue event = some next) : next.WithinLimit := by
  by_cases hpush : ∃ now pushedRequest, event = .push now pushedRequest
  · obtain ⟨now, pushedRequest, rfl⟩ := hpush
    rcases push_sends hstep with ⟨hsends, rfl⟩ | ⟨-, hunsent⟩
    · exact withinLimit_of_room hsends.1 dispatch_limit dispatch_inflight_le
    · rcases hunsent.inflight with hinflight | ⟨hroom, hinflight⟩
      · intro limit hmem
        rw [hunsent.limit] at hmem
        exact hinflight.trans (h limit hmem)
      · exact withinLimit_of_room hroom hunsent.limit hinflight
  · refine h.moves (timed_step (event.time.getD 0)
      (fun now pushedRequest heq => hpush ⟨now, pushedRequest, heq⟩) (fun time htime => ?_) hstep)
    rw [htime, Option.getD_some]

/-- An event during which the queue is throttled sends nothing. -/
theorem silent_step {event : Event} (hnow : event.time = some now)
    (hthrottled : now < queue.throttledUntil) (hstep : step queue event = some next) :
    next.written = queue.written := by
  by_cases hpush : ∃ now pushedRequest, event = .push now pushedRequest
  · obtain ⟨time, pushedRequest, rfl⟩ := hpush
    obtain rfl : time = now := Option.some.inj hnow
    rcases push_sends hstep with ⟨hsends, -⟩ | ⟨-, hunsent⟩
    · have hroom := hsends.1
      rw [canSend_eq_false hthrottled] at hroom
      cases hroom
    · exact hunsent.written
  · refine ((timed_step now (fun now pushedRequest heq => hpush ⟨now, pushedRequest, heq⟩)
      (fun time htime => ?_) hstep).silent hthrottled).1
    exact Option.some.inj (htime.symm.trans hnow)

/-! ## Runs -/

/-- The state of a queue after the events. -/
def After (start : RequestQueue) (events : List Event) (state : RequestQueue) : Prop :=
  run step start events = some state

/-- What the queue promises of its sending, in every state that the events lead to: requests leave
in the order in which they were pushed, the limit is respected, and nothing is sent while the queue
is throttled. -/
def Orderly (start : RequestQueue) (events : List Event) : Prop :=
  ∀ before state, before <+: events → After start before state →
    state.InOrder ∧ state.WithinLimit ∧
      ∀ event next now, before ++ [event] <+: events → step state event = some next →
        event.time = some now → now < state.throttledUntil → next.written = state.written

/-- No push overtakes pending requests. -/
def NeverOvertakes (start : RequestQueue) (events : List Event) : Prop :=
  ∀ before state now pushedRequest, before ++ [.push now pushedRequest] <+: events →
    After start before state → ¬ Overtakes state now pushedRequest

section Runs

variable {start : RequestQueue} {events before : List Event} {state : RequestQueue}

/-- Along a run only what was created is written and kept. -/
theorem created_after (hstart : start.Created) (hafter : After start events state) :
    state.Created :=
  invariant_of_run (fun _ _ _ hcreated hstep => created_step hcreated hstep) hstart hafter

/-- Along a run the limit is kept. -/
theorem withinLimit_after (hstart : start.WithinLimit) (hafter : After start events state) :
    state.WithinLimit :=
  invariant_of_run (fun _ _ _ hlimit hstep => withinLimit_step hlimit hstep) hstart hafter

/-- Without overtaking the order is kept. -/
theorem inOrder_after (hcreated : start.Created) (horder : start.InOrder)
    (hnever : NeverOvertakes start events) (hbefore : before <+: events)
    (hafter : After start before state) : state.InOrder := by
  induction before using List.reverseRecOn generalizing state with
  | nil =>
      cases hafter
      exact horder
  | append_singleton before event ih =>
      obtain ⟨last, hlast, hstep⟩ := run_concat_eq_some.mp hafter
      refine inOrder_step (created_after hcreated hlast)
        (ih ((List.prefix_append before [event]).trans hbefore) hlast) ?_ hstep
      rintro now pushedRequest rfl
      exact hnever before last now pushedRequest hbefore hlast

end Runs

/-- A push that overtakes breaks the order. -/
theorem not_inOrder_of_overtakes (hcreated : queue.Created)
    (hovertakes : Overtakes queue now pushedRequest)
    (hstep : step queue (.push now pushedRequest) = some next) : ¬ next.InOrder := by
  intro horder
  rcases push_sends hstep with ⟨-, rfl⟩ | ⟨hunsent, -⟩
  · obtain ⟨ref, rest, hpending⟩ := List.exists_cons_of_ne_nil hovertakes.1
    rw [InOrder, dispatch_written, dispatch_pending] at horder
    change (queue.written ++ [queue.created] ++ queue.pending).Pairwise (· < ·) at horder
    have hlt := (List.pairwise_append.mp horder).2.2 queue.created
      (List.mem_append_right _ List.mem_cons_self) ref (hpending ▸ List.mem_cons_self)
    exact Nat.lt_asymm hlt
      (hcreated ref (List.mem_append_right _ (hpending ▸ List.mem_cons_self)))
  · exact hunsent hovertakes.2

/-- A new queue is orderly through any events exactly if no push overtakes pending requests. -/
theorem orderly_iff (maxInFlightRequests : Option Nat) (requestTimeout : Int)
    (enforceRequestTimeout : Bool) (events : List Event) :
    Orderly (new maxInFlightRequests requestTimeout enforceRequestTimeout) events ↔
      NeverOvertakes (new maxInFlightRequests requestTimeout enforceRequestTimeout) events := by
  have hcreated : (new maxInFlightRequests requestTimeout enforceRequestTimeout).Created :=
    fun ref href => absurd href List.not_mem_nil
  have hlimit : (new maxInFlightRequests requestTimeout enforceRequestTimeout).WithinLimit :=
    fun limit _ => Nat.zero_le limit
  constructor
  · intro horderly before state now pushedRequest hprefix hafter hovertakes
    obtain ⟨next, hstep⟩ : ∃ next, step state (.push now pushedRequest) = some next := by
      rw [step]
      rcases Command.exec (push now pushedRequest) state with ⟨error | value, after⟩
      · exact ⟨_, rfl⟩
      · exact ⟨_, rfl⟩
    refine not_inOrder_of_overtakes (created_after hcreated hafter) hovertakes hstep ?_
    exact (horderly _ next hprefix (run_concat_eq_some.mpr ⟨state, hafter, hstep⟩)).1
  · intro hnever before state hprefix hafter
    refine ⟨inOrder_after hcreated List.Pairwise.nil hnever hprefix hafter,
      withinLimit_after hlimit hafter, ?_⟩
    intro event next now _ hstep hnow hthrottled
    exact silent_step hnow hthrottled hstep

/-- The request of correlation id `id`. -/
def plainRequest (id : Int) : PushedRequest :=
  { entry := ⟨0, "Produce", 7, id⟩, expectResponse := true, requestTimeout := none,
    sendError := none }

/-- A request is pushed while the queue is throttled; another one after the throttle is over and
before the timer fires. -/
theorem not_orderly_lateTimer :
    ¬ Orderly (new none 30000 false)
      [.maybeThrottle 0 (some 10), .push 1 (plainRequest 1), .push 11 (plainRequest 2)] := by
  intro horderly
  have hrun : ∃ state, After (new none 30000 false)
      [.maybeThrottle 0 (some 10), .push 1 (plainRequest 1), .push 11 (plainRequest 2)] state ∧
        ¬ state.InOrder :=
    ⟨_, rfl, by decide⟩
  obtain ⟨state, hafter, hdisorder⟩ := hrun
  exact hdisorder (horderly _ state List.prefix_rfl hafter).1

end RequestQueue

end KafkaJs.Network
