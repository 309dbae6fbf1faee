import KafkaJs.Network.RequestOrder

/-!
# Responses and the requests that they settle

What becomes of the requests of a queue while responses arrive on one connection whose writes do not
throw. `Handled calls` says that every request which has been resolved with a response got one of
the responses handled so far, and that each of these responses belongs to a request that has been
written and is settled. A push with a correlation id of its own, a response of a request that has
been written and everything else that happens to the queue keep this: `handled_push`,
`handled_fulfill` and `handled_step`. In such a queue `fulfillRequest` does not throw.
-/

namespace KafkaJs.Network

open KafkaJs.Data KafkaJs.Execution KafkaJs.Protocol

namespace RequestQueue

variable {queue next : RequestQueue} {now : Int} {ref : Nat} {calls : List Fulfillment}
  {pushedRequest : PushedRequest}

/-! ## Writes that do not throw -/

/-- No write throws, what is inflight or written is not pending any more, and requests have been
resolved with the responses of `calls` alone. -/
structure Clean (calls : List Fulfillment) (queue : RequestQueue) : Prop where
  sends : ∀ ref, (queue.requests ref).sendError = none
  inflight : ∀ id ref, queue.inflight.get? id = some ref → (queue.requests ref).state ≠ .pending
  written : ∀ ref ∈ queue.written, (queue.requests ref).state ≠ .pending
  resolved : ∀ ref response, (ref, .resolved (some response)) ∈ queue.settlements →
    response ∈ calls

namespace Clean

/-- Cleanliness depends on the requests and the accounts only. -/
theorem congr (h : Clean calls queue) (hrequests : next.requests = queue.requests)
    (hinflight : next.inflight = queue.inflight) (hwritten : next.written = queue.written)
    (hsettlements : next.settlements = queue.settlements) : Clean calls next := by
  refine ⟨?_, ?_, ?_, ?_⟩
  · rw [hrequests]
    exact h.sends
  · rw [hrequests, hinflight]
    exact h.inflight
  · rw [hrequests, hwritten]
    exact h.written
  · rw [hsettlements]
    exact h.resolved

/-- A clean queue is clean for more responses. -/
theorem mono {more : List Fulfillment} (h : Clean calls queue)
    (hmore : ∀ call ∈ calls, call ∈ more) : Clean more queue :=
  ⟨h.sends, h.inflight, h.written, fun ref response hmem =>
    hmore response (h.resolved ref response hmem)⟩

/-- A correlation id that is freed leaves the queue clean. -/
theorem deleteInflight (h : Clean calls queue) (id : Int) :
    Clean calls (queue.deleteInflight id) := by
  refine ⟨h.sends, fun other ref hget => ?_, h.written, h.resolved⟩
  change (queue.inflight.delete id).get? other = some ref at hget
  rw [InsertionMap.get?_delete] at hget
  split at hget
  · cases hget
  · exact h.inflight other ref hget

/-- Clearing the pending requests leaves the queue clean. -/
theorem clear (h : Clean calls queue) : Clean calls queue.clear :=
  ⟨h.sends, nofun, h.written, h.resolved⟩

/-- A request changes its state, not back to pending. -/
theorem update (h : Clean calls queue) {change : SocketRequest → SocketRequest}
    (hsend : ∀ request, (change request).sendError = request.sendError)
    (hstate : ∀ request, (change request).state ≠ .pending) :
    Clean calls (queue.update ref change) := by
  have hstates : ∀ other, (queue.requests other).state ≠ .pending →
      ((queue.update ref change).requests other).state ≠ .pending := by
    intro other hother
    show (Function.update queue.requests ref _ other).state ≠ _
    by_cases heq : other = ref
    · subst heq
      rw [Function.update_self]
      exact hstate _
    · rwa [Function.update_of_ne heq]
  refine ⟨fun other => ?_, fun id other hget => hstates other (h.inflight id other hget),
    fun other hmem => hstates other (h.written other hmem), h.resolved⟩
  show (Function.update queue.requests ref _ other).sendError = none
  by_cases heq : other = ref
  · subst heq
    rw [Function.update_self, hsend]
    exact h.sends other
  · rw [Function.update_of_ne heq]
    exact h.sends other

/-- Settling a request with one of the responses leaves the queue clean. -/
theorem settle (h : Clean calls queue) {settlement : Settlement}
    (hresolved : ∀ response, settlement = .resolved (some response) → response ∈ calls) :
    Clean calls (queue.settle ref settlement) := by
  refine ⟨h.sends, h.inflight, h.written, fun other response hmem => ?_⟩
  rcases List.mem_append.mp hmem with hold | hnew
  · exact h.resolved other response hold
  · cases List.mem_singleton.mp hnew
    exact hresolved response rfl

/-- Completing a request with one of the responses leaves the queue clean. -/
theorem complete (h : Clean calls queue) {response : Option Fulfillment}
    (hresponse : ∀ call, response = some call → call ∈ calls) :
    Clean calls (queue.complete ref response) := by
  have hupdate : Clean calls
      (queue.update ref fun request => { request with state := .completed }) :=
    h.update (fun _ => rfl) fun _ => by simp
  exact hupdate.settle fun call heq => hresponse call (Settlement.resolved.inj heq)

/-- Rejecting a request leaves the queue clean. -/
theorem reject (h : Clean calls queue) (error : KafkaError) :
    Clean calls (queue.reject ref error) := by
  have hupdate : Clean calls
      (queue.update ref fun request => { request with state := .rejected }) :=
    h.update (fun _ => rfl) fun _ => by simp
  exact hupdate.settle nofun

/-- The request that is sent is the only one that comes among the inflight and the written ones. -/
theorem sent (h : Clean calls queue) : Clean calls (queue.sent now ref) := by
  have hstates : ∀ other, other = ref ∨ (queue.requests other).state ≠ .pending →
      ((queue.sent now ref).requests other).state ≠ .pending := by
    intro other hother
    show (Function.update queue.requests ref _ other).state ≠ _
    by_cases heq : other = ref
    · subst heq
      rw [Function.update_self]
      simp
    · rw [Function.update_of_ne heq]
      exact hother.resolve_left heq
  refine ⟨fun other => ?_, fun id other hget => ?_, fun other hmem => ?_, h.resolved⟩
  · show (Function.update queue.requests ref _ other).sendError = none
    by_cases heq : other = ref
    · subst heq
      rw [Function.update_self]
      exact h.sends other
    · rw [Function.update_of_ne heq]
      exact h.sends other
  · change (queue.inflight.set (queue.requests ref).correlationId ref).get? id = some other at hget
    rw [InsertionMap.get?_set] at hget
    split at hget
    · cases hget
      exact hstates ref (Or.inl rfl)
    · exact hstates other (Or.inr (h.inflight id other hget))
  · rcases List.mem_append.mp hmem with hold | hnew
    · exact hstates other (Or.inr (h.written other hold))
    · exact hstates other (Or.inl (List.mem_singleton.mp hnew))

/-- Dispatching a request leaves the queue clean. -/
theorem dispatch (h : Clean calls queue) : Clean calls (queue.dispatch now ref) := by
  unfold RequestQueue.dispatch
  split
  · exact h.sent
  · exact (h.sent.deleteInflight _).complete nofun

/-- Emitting that the queue is empty leaves it clean. -/
theorem emitRequestQueueEmpty (h : Clean calls queue) :
    Clean calls queue.emitRequestQueueEmpty := by
  unfold RequestQueue.emitRequestQueueEmpty
  split <;> exact h.congr rfl rfl rfl rfl

/-- Scheduling a check leaves the queue clean. -/
theorem scheduleCheckPendingRequests (h : Clean calls queue) :
    Clean calls (queue.scheduleCheckPendingRequests now) := by
  unfold RequestQueue.scheduleCheckPendingRequests
  split <;> exact h.congr rfl rfl rfl rfl

end Clean

/-- A command that keeps the queue clean, whether it throws or not. -/
abbrev KeepsClean (calls : List Fulfillment) (action : Action) : Prop :=
  Ensures (Clean calls) action (fun _ => Clean calls) (fun _ => Clean calls)

/-- A change that keeps queues clean, as a command. -/
theorem keepsClean_modify {f : RequestQueue → RequestQueue}
    (h : ∀ queue, Clean calls queue → Clean calls (f queue)) : KeepsClean calls (modify f) :=
  ensures_modify h

/-- Emitting that the queue is empty, as a command. -/
theorem keepsClean_emit : KeepsClean calls (modify RequestQueue.emitRequestQueueEmpty) :=
  keepsClean_modify fun _ h => h.emitRequestQueueEmpty

/-- Freeing a correlation id, as a command. -/
theorem keepsClean_delete (id : Int) : KeepsClean calls (modify (RequestQueue.deleteInflight id)) :=
  keepsClean_modify fun _ h => h.deleteInflight id

/-- Sending a request keeps the queue clean, also where it throws. -/
theorem keepsClean_sendSocketRequest (now : Int) (ref : Nat) :
    KeepsClean calls (sendSocketRequest now ref) := by
  intro queue h
  by_cases hstate : (queue.requests ref).state = .pending
  · cases hfree : queue.inflight.has (queue.requests ref).correlationId with
    | false =>
        rw [exec_sendSocketRequest hstate hfree, h.sends ref]
        exact h.dispatch
    | true =>
        obtain ⟨error, herror⟩ := @exec_sendSocketRequest_taken _ now _ hstate hfree
        rw [herror]
        exact h
  · obtain ⟨error, herror⟩ := @exec_throwIfInvalidState_error queue ref [.pending] .sent
      (by simpa using hstate)
    rw [sendSocketRequest, send, Command.exec_bind, Command.exec_bind, herror]
    exact h

/-- Sending pending requests keeps the queue clean. -/
theorem keepsClean_sendPending (now : Int) (rest : List Nat) :
    KeepsClean calls (sendPending now rest) := by
  induction rest with
  | nil => exact ensures_pure fun _ h => h
  | cons ref rest ih =>
      intro queue h
      rw [sendPending, Command.exec_bind, Command.exec_get]
      dsimp only
      by_cases hroom : queue.canSendSocketRequestImmediately now = true
      · have hshift : KeepsClean calls (modify (setPending rest)) :=
          keepsClean_modify fun _ hqueue => hqueue.congr rfl rfl rfl rfl
        rw [if_pos hroom]
        exact hshift.bind (fun _ =>
          (keepsClean_sendSocketRequest now ref).bind fun _ =>
            keepsClean_emit.bind fun _ => ih) queue h
      · rw [if_neg hroom]
        exact h

/-- A check of the pending requests keeps the queue clean. -/
theorem keepsClean_checkPendingRequests (now : Int) :
    KeepsClean calls (checkPendingRequests now) := by
  intro queue h
  rw [checkPendingRequests, Command.exec_bind, Command.exec_get]
  exact (keepsClean_sendPending now queue.pending).bind
    (fun _ => keepsClean_modify fun _ hqueue => hqueue.scheduleCheckPendingRequests) queue h

/-- Rejecting a request keeps the queue clean. -/
theorem keepsClean_rejected (ref : Nat) (error : KafkaError) :
    KeepsClean calls (rejected ref error) := by
  intro queue h
  rcases rejected_cases queue ref error with ⟨thrown, hexec⟩ | hexec
  · rw [hexec]
    exact h
  · rw [hexec]
    exact h.reject error

/-- Handling one of the responses keeps the queue clean. -/
theorem keepsClean_fulfillRequest {response : Fulfillment} (hmem : response ∈ calls) :
    KeepsClean calls (fulfillRequest now response) := by
  intro queue h
  rw [fulfillRequest, Command.exec_bind, Command.exec_get]
  refine (keepsClean_delete response.correlationId).bind (fun _ =>
    (keepsClean_checkPendingRequests now).bind fun _ => ?_) queue h
  cases queue.inflight.get? response.correlationId with
  | none => exact keepsClean_emit
  | some ref =>
      have hcompleted : KeepsClean calls (completed ref (some response)) := by
        intro state hstate
        rcases completed_cases state ref (some response) with ⟨error, hexec⟩ | hexec
        · rw [hexec]
          exact hstate
        · rw [hexec]
          exact hstate.complete fun call heq => Option.some.inj heq ▸ hmem
      exact hcompleted.bind fun _ => keepsClean_emit

/-- A timeout keeps the queue clean. -/
theorem keepsClean_timeoutRequest (now : Int) (ref : Nat) :
    KeepsClean calls (timeoutRequest now ref) := by
  intro queue h
  rw [timeoutRequest, Command.exec_bind, Command.exec_get]
  exact (keepsClean_delete (queue.requests ref).correlationId).bind (fun _ =>
    (keepsClean_checkPendingRequests now).bind fun _ =>
      keepsClean_emit.bind fun _ => keepsClean_rejected ref _) queue h

/-- Rejecting all requests keeps the queue clean. -/
theorem keepsClean_rejectAll (error : KafkaError) : KeepsClean calls (rejectAll error) := by
  intro queue h
  rw [rejectAll, Command.exec_bind, Command.exec_get]
  have hloop := @ensures_forM _ _ _ _ _ (fun _ => Clean calls) (fun ref _ =>
    (keepsClean_rejected ref error).bind fun _ =>
      keepsClean_delete (queue.requests ref).correlationId)
    (queue.inflight.values ++ queue.pending)
  exact hloop.bind (fun _ => (keepsClean_modify fun _ hqueue => hqueue.clear).bind fun _ =>
    keepsClean_emit) queue h

/-- The state that a command leaves. -/
theorem KeepsClean.perform {action : Action} (haction : KeepsClean calls action)
    (h : Clean calls queue) : Clean calls (queue.perform action) := by
  have hend := haction queue h
  rw [RequestQueue.perform]
  rcases hexec : Command.exec action queue with ⟨error | value, after⟩
  · rwa [hexec] at hend
  · rwa [hexec] at hend

/-- Every event but a push and a response. -/
theorem clean_step {event : Event} (h : Clean calls queue)
    (hpush : ∀ now pushedRequest, event ≠ .push now pushedRequest)
    (hfulfill : ∀ now response, event ≠ .fulfillRequest now response)
    (hstep : step queue event = some next) : Clean calls next := by
  cases event with
  | push now pushedRequest => exact absurd rfl (hpush now pushedRequest)
  | fulfillRequest now response => exact absurd rfl (hfulfill now response)
  | timeoutRequest now ref =>
      obtain ⟨-, hnext⟩ := Option.ite_none_right_eq_some.mp hstep
      cases hnext
      exact KeepsClean.perform (keepsClean_timeoutRequest now ref) h
  | rejectAll error =>
      cases hstep
      exact KeepsClean.perform (keepsClean_rejectAll error) h
  | checkTimer now =>
      obtain ⟨-, hnext⟩ := Option.ite_none_right_eq_some.mp hstep
      cases hnext
      have hclear : KeepsClean calls
          (modify fun queue => { queue with throttleCheckTimeoutId := none }) :=
        keepsClean_modify fun _ hqueue => hqueue.congr rfl rfl rfl rfl
      exact KeepsClean.perform (hclear.bind fun _ => keepsClean_checkPendingRequests now) h
  | maybeThrottle now time =>
      cases hstep
      unfold maybeThrottle
      split
      · split <;> exact h.congr rfl rfl rfl rfl
      · exact h
  | scheduleRequestTimeoutCheck =>
      cases hstep
      unfold scheduleRequestTimeoutCheck
      split <;> exact h.congr rfl rfl rfl rfl
  | destroy =>
      cases hstep
      exact h.congr rfl rfl rfl rfl
  | waitForPendingRequests waiter =>
      cases hstep
      unfold waitForPendingRequests
      split <;> exact h.congr rfl rfl rfl rfl

/-! ## Nothing throws -/

/-- No pending request throws when its turn comes. -/
theorem turnThrows_eq_false (h : ∀ ref, (queue.requests ref).sendError = none) (size : Nat)
    (rest : List Nat) : queue.turnThrows now size rest = false := by
  induction rest generalizing size with
  | nil => rfl
  | cons ref rest ih =>
      rw [turnThrows, h ref, ih]
      split <;> rfl

/-- In a clean queue no pending request has a send that throws. -/
theorem Clean.checkThrows_eq_false (h : Clean calls queue) (id now : Int) :
    (queue.deleteInflight id).checkThrows now = false :=
  @turnThrows_eq_false (queue.deleteInflight id) now h.sends _ _

/-- In a clean queue every event but a push is safe. -/
theorem Clean.safe (h : Clean calls queue) (htracks : Tracks [] queue) {event : Event}
    (hpush : ∀ now pushedRequest, event ≠ .push now pushedRequest) : Safe queue event := by
  cases event with
  | push now pushedRequest => exact absurd rfl (hpush now pushedRequest)
  | fulfillRequest now response =>
      intro ref hget
      exact ⟨(htracks.inflight _ ref hget).2.resolve_left (h.inflight _ ref hget),
        h.checkThrows_eq_false _ now⟩
  | timeoutRequest now ref => exact h.checkThrows_eq_false _ now
  | rejectAll error => trivial
  | checkTimer now => trivial
  | maybeThrottle now time => trivial
  | scheduleRequestTimeoutCheck => trivial
  | destroy => trivial
  | waitForPendingRequests waiter => trivial

/-- In a clean queue every response is safe. -/
theorem Clean.safe_fulfillRequest (h : Clean calls queue) (htracks : Tracks [] queue) (now : Int)
    (response : Fulfillment) : Safe queue (.fulfillRequest now response) :=
  h.safe htracks fun _ _ => by simp

/-- A response does not throw. -/
theorem Clean.fulfillRequest_ok (h : Clean calls queue) (htracks : Tracks [] queue) (now : Int)
    (response : Fulfillment) :
    Command.exec (fulfillRequest now response) queue =
      (.ok (), queue.perform (fulfillRequest now response)) := by
  have hdelete := htracks.deleteInflight response.correlationId
  obtain ⟨-, hheld, hok⟩ := @checkPendingRequests_spec _ now _ hdelete
  have hvalue := hok (h.checkThrows_eq_false response.correlationId now)
  rw [perform] at hheld
  rw [perform, fulfillRequest, Command.exec_bind, Command.exec_get]
  dsimp only
  rw [Command.exec_bind, Command.exec_modify]
  dsimp only
  rw [Command.exec_bind]
  rcases hexec : Command.exec (checkPendingRequests now)
    (queue.deleteInflight response.correlationId) with ⟨error | value, after⟩
  · rw [hexec] at hvalue
    cases hvalue
  · rw [hexec] at hheld
    dsimp only
    cases hget : queue.inflight.get? response.correlationId with
    | none => rfl
    | some ref =>
        have hstate : (after.requests ref).state = .sent := by
          rw [hheld ref (by rw [hget]; exact List.mem_cons_self)]
          exact (htracks.inflight _ ref hget).2.resolve_left (h.inflight _ ref hget)
        rw [Command.exec_bind, exec_completed hstate]
        rfl

/-! ## What grows -/

/-- Requests stay created, written and settled, and keep their entries. -/
structure Grows (queue next : RequestQueue) : Prop where
  written : queue.written <+: next.written
  settlements : queue.settlements <+: next.settlements
  created : queue.created ≤ next.created
  entries : ∀ ref < queue.created, (next.requests ref).entry = (queue.requests ref).entry

/-- A request that was written keeps its place. -/
theorem Grows.getElem?_written {position : Nat} (h : Grows queue next)
    (hwritten : queue.written[position]? = some ref) : next.written[position]? = some ref := by
  obtain ⟨more, hmore⟩ := h.written
  rw [← hmore, List.getElem?_append_left (List.getElem?_eq_some_iff.mp hwritten).1]
  exact hwritten

/-- Dispatching a request settles at most one. -/
theorem dispatch_settlements : queue.settlements <+: (queue.dispatch now ref).settlements := by
  unfold dispatch
  split
  · exact List.prefix_rfl
  · exact List.prefix_append _ _

/-- A move does not take settlements back. -/
theorem Move.settlements (hmove : Move queue next) : queue.settlements <+: next.settlements := by
  cases hmove with
  | shift ref rest hpending => exact List.prefix_rfl
  | launch ref rest hpending => exact List.prefix_rfl
  | dispatch now ref rest hpending => exact @dispatch_settlements (queue.setPending rest) now ref
  | emit => exact (congrArg _ emitRequestQueueEmpty_settlements).mpr List.prefix_rfl
  | schedule now =>
      unfold scheduleCheckPendingRequests
      split <;> exact List.prefix_rfl
  | unschedule => exact List.prefix_rfl
  | delete id => exact List.prefix_rfl
  | complete ref response => exact List.prefix_append _ _
  | reject ref error => exact List.prefix_append _ _
  | clear => exact List.prefix_rfl
  | maybeThrottle now time =>
      unfold RequestQueue.maybeThrottle
      split
      · split <;> exact List.prefix_rfl
      · exact List.prefix_rfl
  | scheduleRequestTimeoutCheck =>
      unfold RequestQueue.scheduleRequestTimeoutCheck
      split <;> exact List.prefix_rfl
  | destroy => exact List.prefix_rfl
  | wait waiter =>
      unfold waitForPendingRequests
      split <;> exact List.prefix_rfl
  | resume waiter => exact List.prefix_rfl

/-- Moves do not take settlements back. -/
theorem Moves.settlements (hmoves : Moves queue next) : queue.settlements <+: next.settlements := by
  induction hmoves with
  | refl => exact List.prefix_rfl
  | tail _ hmove ih => exact ih.trans hmove.settlements

/-- Moves let the queue grow. -/
theorem Moves.grows (hmoves : Moves queue next) : Grows queue next := by
  have hsends : Sends (fun _ => True) queue next := hmoves.sends (Sends.refl fun _ _ => trivial)
  obtain ⟨refs, hwritten, -⟩ := hsends.written
  exact ⟨⟨refs, hwritten.symm⟩, hmoves.settlements, hsends.created.ge,
    fun ref _ => hsends.entries ref⟩

/-- A request that is created changes nothing about the others. -/
theorem createSocketRequest_requests (h : ref < queue.created) :
    (queue.createSocketRequest now pushedRequest).requests ref = queue.requests ref :=
  Function.update_of_ne (Nat.ne_of_lt h) ..

/-! ## What has been handled -/

/-- The responses that have been handled, and the requests. -/
structure Handled (calls : List Fulfillment) (queue : RequestQueue) : Prop where
  tracks : Tracks [] queue
  clean : Clean calls queue
  created : queue.Created
  settled : ∀ call ∈ calls, ∃ ref ∈ queue.written,
    (queue.requests ref).correlationId = call.correlationId ∧ ref ∈ queue.settlements.map Prod.fst

/-- A new queue has handled nothing. -/
theorem handled_new (maxInFlightRequests : Option Nat) (requestTimeout : Int) (enforce : Bool) :
    Handled [] (new maxInFlightRequests requestTimeout enforce) :=
  ⟨tracks_new _ _ _, ⟨fun _ => rfl, nofun, nofun, nofun⟩, nofun, nofun⟩

/-- What has been settled stays so. -/
theorem Grows.settled (h : Grows queue next) (hcreated : queue.Created) {call : Fulfillment}
    (hsettled : ∃ ref ∈ queue.written, (queue.requests ref).correlationId = call.correlationId ∧
      ref ∈ queue.settlements.map Prod.fst) :
    ∃ ref ∈ next.written, (next.requests ref).correlationId = call.correlationId ∧
      ref ∈ next.settlements.map Prod.fst := by
  obtain ⟨ref, hwritten, hid, hmem⟩ := hsettled
  have hentry := h.entries ref (hcreated ref (List.mem_append_left _ hwritten))
  exact ⟨ref, h.written.subset hwritten, (congrArg RequestEntry.correlationId hentry).trans hid,
    (h.settlements.map Prod.fst).subset hmem⟩

/-- Moves create no request. -/
theorem Moves.created (hmoves : Moves queue next) : next.created = queue.created :=
  (hmoves.sends (Sends.refl fun _ _ => trivial) : Sends (fun _ => True) queue next).created

/-- Moves keep the correlation ids. -/
theorem Moves.correlationId (hmoves : Moves queue next) (ref : Nat) :
    (next.requests ref).correlationId = (queue.requests ref).correlationId :=
  congrArg RequestEntry.correlationId
    ((hmoves.sends (Sends.refl fun _ _ => trivial) : Sends (fun _ => True) queue next).entries ref)

/-- Every event but a push and a response. -/
theorem handled_step {event : Event} (h : Handled calls queue)
    (hpush : ∀ now pushedRequest, event ≠ .push now pushedRequest)
    (hfulfill : ∀ now response, event ≠ .fulfillRequest now response)
    (hstep : step queue event = some next) : Handled calls next := by
  have hfresh : Fresh queue event := by
    cases event with
    | push now pushedRequest => exact absurd rfl (hpush now pushedRequest)
    | _ => trivial
  have hgrows := (moves_step hpush hstep).grows
  exact ⟨tracks_step h.tracks hfresh (h.clean.safe h.tracks hpush) hstep,
    clean_step h.clean hpush hfulfill hstep, created_step h.created hstep,
    fun call hcall => hgrows.settled h.created (h.settled call hcall)⟩

/-- The response of a request that has been written. -/
theorem handled_fulfill (h : Handled calls queue) (now : Int) {call : Fulfillment}
    (hwritten : ref ∈ queue.written)
    (hid : (queue.requests ref).correlationId = call.correlationId) :
    Handled (calls ++ [call]) (queue.perform (fulfillRequest now call)) ∧
      Moves queue (queue.perform (fulfillRequest now call)) := by
  have hpush : ∀ time pushedRequest,
      Event.fulfillRequest now call ≠ .push time pushedRequest := fun _ _ => by simp
  obtain ⟨htracks, hdelivered⟩ :=
    fulfillRequest_spec h.tracks (h.clean.safe_fulfillRequest h.tracks now call)
  have hmoves := moves_step hpush (rfl : step queue (.fulfillRequest now call) = _)
  have hgrows := hmoves.grows
  refine ⟨⟨htracks, ?_, created_step h.created (rfl : step queue (.fulfillRequest now call) = _),
    fun other hother => ?_⟩, hmoves⟩
  · exact KeepsClean.perform
      (keepsClean_fulfillRequest (List.mem_append_right _ List.mem_cons_self))
      (h.clean.mono fun other hother => List.mem_append_left _ hother)
  · rcases List.mem_append.mp hother with hold | hnew
    · exact hgrows.settled h.created (h.settled other hold)
    · cases List.mem_singleton.mp hnew
      have hlt := h.created ref (List.mem_append_left _ hwritten)
      have hentry := hgrows.entries ref hlt
      refine ⟨ref, hgrows.written.subset hwritten,
        (congrArg RequestEntry.correlationId hentry).trans hid, ?_⟩
      by_cases hmem : ref ∈ queue.settlements.map Prod.fst
      · exact (hgrows.settlements.map Prod.fst).subset hmem
      · -- a request that has been written and is not settled is inflight
        have hpending : ref ∉ queue.pending := fun hpending =>
          h.clean.written ref hwritten (h.tracks.pending ref hpending)
        have hinflight : ref ∈ queue.inflight.values := by
          rcases h.tracks.conserves.unsettled ref hlt hmem with ⟨hinflight, -⟩ | ⟨-, hmem⟩
          · exact hinflight
          · exact absurd hmem hpending
        obtain ⟨id, hget⟩ := InsertionMap.mem_values_iff.mp hinflight
        obtain rfl : id = call.correlationId := (h.tracks.inflight id ref hget).1.symm.trans hid
        exact List.mem_map.mpr ⟨_, hdelivered ref hget, rfl⟩

/-- A push of a request with a correlation id of its own sends it or puts it behind the pending
ones. -/
theorem push_fresh (h : Tracks [] queue) (hfresh : Fresh queue (.push now pushedRequest))
    (hsend : pushedRequest.sendError = none)
    (hstep : step queue (.push now pushedRequest) = some next) :
    next = (queue.createSocketRequest now pushedRequest).dispatch now queue.created ∨
      next = (((queue.createSocketRequest now pushedRequest).setPending
        (queue.pending ++ [queue.created])).scheduleCheckPendingRequests
          now).emitRequestQueueEmpty := by
  rw [step] at hstep
  rcases push_cases queue now pushedRequest with ⟨-, hexec⟩ | ⟨-, hexec⟩
  · have hcreate := @Tracks.createSocketRequest _ now _ h _ hfresh
    have hrequest : (queue.createSocketRequest now pushedRequest).requests queue.created =
        { entry := pushedRequest.entry
          expectResponse := pushedRequest.expectResponse
          requestTimeout := max queue.requestTimeout (pushedRequest.requestTimeout.getD 0)
          createdAt := now
          sentAt := none
          state := .pending
          sendError := pushedRequest.sendError } := Function.update_self ..
    rw [hexec, exec_sendSocketRequest (by rw [hrequest]) hcreate.has_eq_false, hrequest] at hstep
    dsimp only at hstep
    rw [hsend] at hstep
    cases hstep
    exact Or.inl rfl
  · rw [hexec] at hstep
    cases hstep
    exact Or.inr rfl

/-- A push whose send does not throw leaves the queue clean. -/
theorem Clean.createSocketRequest (h : Clean calls queue) (htracks : Tracks [] queue)
    (hcreated : queue.Created) (hsend : pushedRequest.sendError = none) :
    Clean calls (queue.createSocketRequest now pushedRequest) := by
  refine ⟨fun ref => ?_, fun id ref hget => ?_, fun ref hmem => ?_, h.resolved⟩
  · show (Function.update queue.requests queue.created _ ref).sendError = none
    by_cases heq : ref = queue.created
    · rw [heq, Function.update_self]
      exact hsend
    · rw [Function.update_of_ne heq]
      exact h.sends ref
  · rw [createSocketRequest_requests
      (htracks.lt_of_inflight (InsertionMap.mem_values_iff.mpr ⟨id, hget⟩))]
    exact h.inflight id ref hget
  · rw [createSocketRequest_requests (hcreated ref (List.mem_append_left _ hmem))]
    exact h.written ref hmem

/-- A request with a correlation id of its own. -/
theorem handled_push (h : Handled calls queue) (hfresh : Fresh queue (.push now pushedRequest))
    (hsend : pushedRequest.sendError = none)
    (hstep : step queue (.push now pushedRequest) = some next) :
    Handled calls next ∧ Grows queue next ∧ next.created = queue.created + 1 ∧
      (next.requests queue.created).entry = pushedRequest.entry := by
  have hbase : Clean calls (queue.createSocketRequest now pushedRequest) :=
    h.clean.createSocketRequest h.tracks h.created hsend
  have hsends := sends_push hstep
  have hclean : Clean calls next ∧
      (queue.createSocketRequest now pushedRequest).settlements <+: next.settlements := by
    rcases push_fresh h.tracks hfresh hsend hstep with rfl | rfl
    · exact ⟨hbase.dispatch, dispatch_settlements⟩
    · have hpending : Clean calls ((queue.createSocketRequest now pushedRequest).setPending
          (queue.pending ++ [queue.created])) := hbase.congr rfl rfl rfl rfl
      refine ⟨hpending.scheduleCheckPendingRequests.emitRequestQueueEmpty, ?_⟩
      exact (@Move.settlements ((queue.createSocketRequest now pushedRequest).setPending
        (queue.pending ++ [queue.created])) _ (.schedule now)).trans Move.emit.settlements
  have hgrows : Grows queue next := by
    obtain ⟨refs, hwritten, -⟩ := hsends.written
    refine ⟨⟨refs, hwritten.symm⟩, hclean.2, ?_, fun ref hlt => ?_⟩
    · rw [hsends.created]
      exact Nat.le_succ _
    · rw [hsends.entries ref, createSocketRequest_requests hlt]
  have htracks := tracks_step h.tracks hfresh
    (show Safe queue (.push now pushedRequest) from fun _ => hsend) hstep
  refine ⟨⟨htracks, hclean.1, created_step h.created hstep,
    fun call hcall => hgrows.settled h.created (h.settled call hcall)⟩, hgrows, hsends.created, ?_⟩
  rw [hsends.entries]
  show (Function.update queue.requests queue.created _ queue.created).entry = _
  rw [Function.update_self]

end RequestQueue

end KafkaJs.Network
