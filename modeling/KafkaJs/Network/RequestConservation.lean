import KafkaJs.Network.RequestQueue

/-!
# Conservation of requests

Where the requests of a queue are. `Tracks held` says that every request created so far is settled,
inflight, pending or held by the operation that is under way, once in all; every operation has a
lemma that says what it does to the requests that are tracked, also when it throws.
`conserves_of_safe` draws the conclusion for runs.

Requests can get lost. `fulfillRequest` and a timeout take their request out of the inflight ones
and then send the pending requests that have room now, before they settle it; an exception of one of
these sends unwinds through them. `push` leaves a request whose send throws among the inflight ones,
where it is settled a second time by its timeout. `Safe` excludes these steps.
-/

namespace KafkaJs.Network

open KafkaJs.Data KafkaJs.Execution KafkaJs.Protocol

namespace RequestQueue

variable {queue : RequestQueue} {now : Int} {ref : Nat}

/-- The request has been put among the inflight ones. -/
def launch (ref : Nat) (queue : RequestQueue) : RequestQueue :=
  { queue with inflight := queue.inflight.set (queue.requests ref).correlationId ref }

/-- The request has been sent. -/
def sent (now : Int) (ref : Nat) (queue : RequestQueue) : RequestQueue :=
  update ref (fun request => { request with sentAt := some now, state := .sent })
    { queue.launch ref with written := queue.written ++ [ref] }

/-- The request is settled with a response. -/
def complete (ref : Nat) (response : Option Fulfillment) (queue : RequestQueue) : RequestQueue :=
  settle ref (.resolved response) (update ref (fun request => { request with state := .completed })
    queue)

/-- The request is settled with an error. -/
def reject (ref : Nat) (error : KafkaError) (queue : RequestQueue) : RequestQueue :=
  settle ref (.rejected error) (update ref (fun request => { request with state := .rejected })
    queue)

/-- A request in an accepted state passes the guard. -/
theorem exec_throwIfInvalidState {accepted : List RequestState} {next : RequestState}
    (h : (queue.requests ref).state ∈ accepted) :
    Command.exec (throwIfInvalidState ref accepted next) queue = (.ok (), queue) := by
  rw [throwIfInvalidState, Command.exec_bind, Command.exec_get]
  dsimp only
  rw [if_pos h, Command.exec_pure]

/-- A request that was sent is completed. -/
theorem exec_completed {response : Option Fulfillment} (h : (queue.requests ref).state = .sent) :
    Command.exec (completed ref response) queue = (.ok (), queue.complete ref response) := by
  rw [completed, Command.exec_bind, exec_throwIfInvalidState (by simp [h])]
  rfl

/-- A request that is not settled is rejected. -/
theorem exec_rejected {error : KafkaError}
    (h : (queue.requests ref).state = .pending ∨ (queue.requests ref).state = .sent) :
    Command.exec (rejected ref error) queue = (.ok (), queue.reject ref error) := by
  rw [rejected, Command.exec_bind, exec_throwIfInvalidState (by simpa using h)]
  rfl

/-- A request whose correlation id is free is put among the inflight ones before it is sent. -/
theorem exec_sendRequest (hfree : queue.inflight.has (queue.requests ref).correlationId = false) :
    Command.exec (sendRequest ref) queue =
      match (queue.requests ref).sendError with
      | some error => (.error error, queue.launch ref)
      | none => (.ok (), { queue.launch ref with written := queue.written ++ [ref] }) := by
  rw [sendRequest, Command.exec_bind, Command.exec_get]
  dsimp only
  rw [hfree, if_neg Bool.false_ne_true, Command.exec_bind, Command.exec_set]
  dsimp only
  cases (queue.requests ref).sendError with
  | some error => rfl
  | none => rfl

/-- What sending a pending request does, by what its send throws. -/
theorem exec_send (hstate : (queue.requests ref).state = .pending)
    (hfree : queue.inflight.has (queue.requests ref).correlationId = false) :
    Command.exec (send now ref) queue =
      match (queue.requests ref).sendError with
      | some error => (.error error, queue.launch ref)
      | none => (.ok (), queue.sent now ref) := by
  rw [send, Command.exec_bind, exec_throwIfInvalidState (by simp [hstate])]
  dsimp only
  rw [Command.exec_bind, exec_sendRequest hfree]
  cases (queue.requests ref).sendError with
  | some error => rfl
  | none => rfl

/-- The request has been sent, and settled if it expects no response. -/
def dispatch (now : Int) (ref : Nat) (queue : RequestQueue) : RequestQueue :=
  if (queue.requests ref).expectResponse then queue.sent now ref
  else ((queue.sent now ref).deleteInflight (queue.requests ref).correlationId).complete ref none

/-- What `sendSocketRequest` does for a pending request. -/
theorem exec_sendSocketRequest (hstate : (queue.requests ref).state = .pending)
    (hfree : queue.inflight.has (queue.requests ref).correlationId = false) :
    Command.exec (sendSocketRequest now ref) queue =
      match (queue.requests ref).sendError with
      | some error => (.error error, queue.launch ref)
      | none => (.ok (), queue.dispatch now ref) := by
  rw [sendSocketRequest, Command.exec_bind, exec_send hstate hfree, dispatch]
  cases (queue.requests ref).sendError with
  | some error => rfl
  | none =>
      have hrequest : (queue.sent now ref).requests ref =
          { queue.requests ref with sentAt := some now, state := .sent } :=
        Function.update_self ..
      dsimp only
      rw [Command.exec_bind, Command.exec_get]
      dsimp only
      rw [hrequest]
      cases (queue.requests ref).expectResponse with
      | true => rfl
      | false =>
          rw [if_pos Bool.false_ne_true, Command.exec_bind, Command.exec_modify]
          dsimp only
          exact exec_completed (congrArg SocketRequest.state hrequest)

/-! ## Where the requests are -/

/-- Every request that was created is settled, inflight, pending or held by the operation that is
under way, once in all. -/
structure Tracks (held : List Nat) (queue : RequestQueue) : Prop where
  accounted : ∀ ref, (queue.settlements.map Prod.fst).count ref +
    (queue.inflight.values.count ref + (queue.pending.count ref + held.count ref)) =
      if ref < queue.created then 1 else 0
  inflight : ∀ id ref, queue.inflight.get? id = some ref →
    (queue.requests ref).correlationId = id ∧
      ((queue.requests ref).state = .pending ∨ (queue.requests ref).state = .sent)
  pending : ∀ ref ∈ queue.pending, (queue.requests ref).state = .pending
  distinct : ∀ first second, first < queue.created → second < queue.created →
    (queue.requests first).correlationId = (queue.requests second).correlationId → first = second
  delivered : ∀ ref response, (ref, .resolved (some response)) ∈ queue.settlements →
    (queue.requests ref).correlationId = response.correlationId

namespace Tracks

variable {held : List Nat}

/-- A request that is counted anywhere has been created. -/
theorem lt_of_count (h : Tracks held queue)
    (hcount : 0 < (queue.settlements.map Prod.fst).count ref +
      (queue.inflight.values.count ref + (queue.pending.count ref + held.count ref))) :
    ref < queue.created := by
  rw [h.accounted ref] at hcount
  by_contra hnot
  rw [if_neg hnot] at hcount
  exact absurd hcount (Nat.lt_irrefl 0)

/-- A request that is held was created. -/
theorem lt_created (h : Tracks (ref :: held) queue) : ref < queue.created :=
  h.lt_of_count (by rw [List.count_cons_self]; omega)

/-- A settled request was created. -/
theorem lt_of_settled (h : Tracks held queue) (hmem : ref ∈ queue.settlements.map Prod.fst) :
    ref < queue.created :=
  h.lt_of_count (by have := List.count_pos_iff.mpr hmem; omega)

/-- A request in flight was created. -/
theorem lt_of_inflight (h : Tracks held queue) (hmem : ref ∈ queue.inflight.values) :
    ref < queue.created :=
  h.lt_of_count (by have := List.count_pos_iff.mpr hmem; omega)

/-- A pending request was created. -/
theorem lt_of_pending (h : Tracks held queue) (hmem : ref ∈ queue.pending) :
    ref < queue.created :=
  h.lt_of_count (by have := List.count_pos_iff.mpr hmem; omega)

/-- A request that is held is nowhere else. -/
theorem notMem_pending (h : Tracks (ref :: held) queue) : ref ∉ queue.pending := by
  intro hmem
  have hcount := h.accounted ref
  have hpositive := List.count_pos_iff.mpr hmem
  rw [List.count_cons_self, if_pos h.lt_created] at hcount
  omega

/-- A request that is held is not in flight. -/
theorem notMem_inflight (h : Tracks (ref :: held) queue) : ref ∉ queue.inflight.values := by
  intro hmem
  have hcount := h.accounted ref
  have hpositive := List.count_pos_iff.mpr hmem
  rw [List.count_cons_self, if_pos h.lt_created] at hcount
  omega

/-- A request is held once. -/
theorem notMem_held (h : Tracks (ref :: held) queue) : ref ∉ held := by
  intro hmem
  have hcount := h.accounted ref
  have hpositive := List.count_pos_iff.mpr hmem
  rw [List.count_cons_self, if_pos h.lt_created] at hcount
  omega

/-- The correlation id of a request that is held is free. -/
theorem has_eq_false (h : Tracks (ref :: held) queue) :
    queue.inflight.has (queue.requests ref).correlationId = false := by
  by_contra hhas
  obtain ⟨other, hother⟩ := Option.isSome_iff_exists.mp (Bool.eq_true_of_not_eq_false hhas)
  have hmem := InsertionMap.mem_values_iff.mpr ⟨_, hother⟩
  have heq := h.distinct other ref (h.lt_of_inflight hmem) h.lt_created (h.inflight _ _ hother).1
  exact h.notMem_inflight (heq ▸ hmem)

/-- What changes nothing about the requests keeps them tracked. -/
theorem congr {next : RequestQueue} (h : Tracks held queue)
    (hrequests : next.requests = queue.requests) (hcreated : next.created = queue.created)
    (hinflight : next.inflight = queue.inflight) (hpending : next.pending = queue.pending)
    (hsettlements : next.settlements = queue.settlements) : Tracks held next := by
  refine ⟨?_, ?_, ?_, ?_, ?_⟩
  · rw [hsettlements, hinflight, hpending, hcreated]
    exact h.accounted
  · rw [hrequests, hinflight]
    exact h.inflight
  · rw [hrequests, hpending]
    exact h.pending
  · rw [hrequests, hcreated]
    exact h.distinct
  · rw [hrequests, hsettlements]
    exact h.delivered

/-- Emitting that the queue is empty keeps track. -/
theorem emitRequestQueueEmpty (h : Tracks held queue) :
    Tracks held queue.emitRequestQueueEmpty := by
  unfold RequestQueue.emitRequestQueueEmpty
  split
  · exact h.congr rfl rfl rfl rfl rfl
  · exact h

/-- Scheduling a check keeps track. -/
theorem scheduleCheckPendingRequests (h : Tracks held queue) :
    Tracks held (queue.scheduleCheckPendingRequests now) := by
  unfold RequestQueue.scheduleCheckPendingRequests
  split
  · exact h
  · exact h.congr rfl rfl rfl rfl rfl

/-- The request that is held goes among the inflight ones. -/
theorem launch (h : Tracks (ref :: held) queue)
    (hstate : (queue.requests ref).state = .pending) : Tracks held (queue.launch ref) := by
  have hfree := h.has_eq_false
  refine ⟨?_, ?_, h.pending, h.distinct, h.delivered⟩
  · intro other
    have hcount := h.accounted other
    show _ + ((queue.inflight.set (queue.requests ref).correlationId ref).values.count other + _) = _
    rw [InsertionMap.values_set hfree, List.count_append]
    rw [List.count_cons] at hcount
    rw [List.count_singleton]
    show _ + (_ + _ + (queue.pending.count other + _)) = if other < queue.created then 1 else 0
    show (queue.settlements.map Prod.fst).count other + _ = _
    omega
  · intro id other hother
    change (queue.inflight.set (queue.requests ref).correlationId ref).get? id = some other at hother
    rw [InsertionMap.get?_set] at hother
    split at hother
    · next heq =>
        cases hother
        exact ⟨heq.symm, Or.inl hstate⟩
    · exact h.inflight id other hother

/-- A change of the state of a request that is not pending to another one. -/
theorem update (h : Tracks held queue) (hpending : ref ∉ queue.pending)
    {change : SocketRequest → SocketRequest}
    (hid : (change (queue.requests ref)).correlationId = (queue.requests ref).correlationId)
    (hstate : ref ∈ queue.inflight.values → (change (queue.requests ref)).state = .pending ∨
      (change (queue.requests ref)).state = .sent) : Tracks held (queue.update ref change) := by
  have hids : ∀ other, ((queue.update ref change).requests other).correlationId =
      (queue.requests other).correlationId := by
    intro other
    show (Function.update queue.requests ref _ other).correlationId = _
    by_cases heq : other = ref
    · subst heq
      rw [Function.update_self, hid]
    · rw [Function.update_of_ne heq]
  refine ⟨h.accounted, ?_, ?_, ?_, ?_⟩
  · intro id other hother
    obtain ⟨hmatch, hold⟩ := h.inflight id other hother
    refine ⟨(hids other).trans hmatch, ?_⟩
    show (Function.update queue.requests ref _ other).state = _ ∨
      (Function.update queue.requests ref _ other).state = _
    by_cases heq : other = ref
    · subst heq
      rw [Function.update_self]
      exact hstate (InsertionMap.mem_values_iff.mpr ⟨id, hother⟩)
    · rwa [Function.update_of_ne heq]
  · intro other hother
    have hne : other ≠ ref := by
      rintro rfl
      exact hpending hother
    show (Function.update queue.requests ref _ other).state = _
    rw [Function.update_of_ne hne]
    exact h.pending other hother
  · intro first second hfirst hsecond heq
    rw [hids, hids] at heq
    exact h.distinct first second hfirst hsecond heq
  · intro other response hother
    rw [hids]
    exact h.delivered other response hother

/-- A request that is held is settled. -/
theorem settle (h : Tracks (ref :: held) queue) {settlement : Settlement}
    (hdelivered : ∀ response, settlement = .resolved (some response) →
      (queue.requests ref).correlationId = response.correlationId) :
    Tracks held (queue.settle ref settlement) := by
  refine ⟨?_, h.inflight, h.pending, h.distinct, ?_⟩
  · intro other
    have hcount := h.accounted other
    show ((queue.settlements ++ [(ref, settlement)]).map Prod.fst).count other + _ = _
    rw [List.map_append, List.count_append]
    rw [List.count_cons] at hcount
    show _ + List.count other [ref] + (queue.inflight.values.count other +
      (queue.pending.count other + _)) = if other < queue.created then 1 else 0
    rw [List.count_singleton]
    omega
  · intro other response hother
    rcases List.mem_append.mp hother with hold | hnew
    · exact h.delivered other response hold
    · rw [List.mem_singleton] at hnew
      cases hnew
      exact hdelivered response rfl

/-- The request that is held is sent. -/
theorem sent (h : Tracks (ref :: held) queue) (hstate : (queue.requests ref).state = .pending) :
    Tracks held (queue.sent now ref) := by
  have hlaunch : Tracks held { queue.launch ref with written := queue.written ++ [ref] } :=
    (h.launch hstate).congr rfl rfl rfl rfl rfl
  exact hlaunch.update h.notMem_pending rfl fun _ => Or.inr rfl

/-- Completing the held request keeps track. -/
theorem complete (h : Tracks (ref :: held) queue) {response : Option Fulfillment}
    (hid : ∀ other, response = some other →
      (queue.requests ref).correlationId = other.correlationId) :
    Tracks held (queue.complete ref response) := by
  have hupdate : Tracks (ref :: held)
      (queue.update ref fun request => { request with state := .completed }) :=
    h.update h.notMem_pending rfl fun hmem => absurd hmem h.notMem_inflight
  refine hupdate.settle fun other heq => ?_
  have hsame : ((queue.update ref fun request => { request with state := .completed }).requests
      ref).correlationId = (queue.requests ref).correlationId := by
    show (Function.update queue.requests ref _ ref).correlationId = _
    rw [Function.update_self]
    rfl
  exact hsame.trans (hid other (Settlement.resolved.inj heq))

/-- Rejecting the held request keeps track. -/
theorem reject (h : Tracks (ref :: held) queue) (error : KafkaError) :
    Tracks held (queue.reject ref error) := by
  have hupdate : Tracks (ref :: held)
      (queue.update ref fun request => { request with state := .rejected }) :=
    h.update h.notMem_pending rfl fun hmem => absurd hmem h.notMem_inflight
  exact hupdate.settle nofun

/-- The request under a correlation id, if there is one, is held. -/
theorem deleteInflight (h : Tracks held queue) (id : Int) :
    Tracks ((queue.inflight.get? id).toList ++ held) (queue.deleteInflight id) := by
  refine ⟨?_, ?_, h.pending, h.distinct, h.delivered⟩
  · intro other
    have hcount := h.accounted other
    have hperm := (queue.inflight.values_perm_delete id).count_eq other
    rw [List.count_append] at hperm
    show (queue.settlements.map Prod.fst).count other + ((queue.inflight.delete id).values.count other +
      (queue.pending.count other + _)) = if other < queue.created then 1 else 0
    rw [List.count_append]
    omega
  · intro other found hfound
    change (queue.inflight.delete id).get? other = some found at hfound
    rw [InsertionMap.get?_delete] at hfound
    split at hfound
    · cases hfound
    · exact h.inflight other found hfound

/-- The first pending request is held. -/
theorem shift {rest : List Nat} (h : Tracks held queue) (hpending : queue.pending = ref :: rest) :
    Tracks (ref :: held) (queue.setPending rest) := by
  refine ⟨?_, h.inflight, ?_, h.distinct, h.delivered⟩
  · intro other
    have hcount := h.accounted other
    rw [hpending, List.count_cons] at hcount
    show (queue.settlements.map Prod.fst).count other + (queue.inflight.values.count other +
      (rest.count other + _)) = if other < queue.created then 1 else 0
    rw [List.count_cons]
    omega
  · intro other hother
    exact h.pending other (hpending ▸ List.mem_cons_of_mem ref hother)

/-- A request that is held becomes the last pending one. -/
theorem enqueue (h : Tracks (ref :: held) queue) (hstate : (queue.requests ref).state = .pending) :
    Tracks held (queue.setPending (queue.pending ++ [ref])) := by
  refine ⟨?_, h.inflight, ?_, h.distinct, h.delivered⟩
  · intro other
    have hcount := h.accounted other
    rw [List.count_cons] at hcount
    show (queue.settlements.map Prod.fst).count other + (queue.inflight.values.count other +
      ((queue.pending ++ [ref]).count other + _)) = if other < queue.created then 1 else 0
    rw [List.count_append, List.count_singleton]
    omega
  · intro other hother
    rcases List.mem_append.mp hother with hold | hnew
    · exact h.pending other hold
    · rw [List.mem_singleton] at hnew
      rwa [hnew]

/-- A new request with a correlation id of its own is held. -/
theorem createSocketRequest (h : Tracks held queue) {pushedRequest : PushedRequest}
    (hfresh : ∀ ref < queue.created,
      (queue.requests ref).correlationId ≠ pushedRequest.entry.correlationId) :
    Tracks (queue.created :: held) (queue.createSocketRequest now pushedRequest) := by
  have hnew : ((queue.createSocketRequest now pushedRequest).requests
      queue.created).correlationId = pushedRequest.entry.correlationId := by
    show (Function.update queue.requests queue.created _ queue.created).correlationId = _
    rw [Function.update_self]
    rfl
  have hold : ∀ ref, ref < queue.created →
      (queue.createSocketRequest now pushedRequest).requests ref = queue.requests ref :=
    fun ref hlt => Function.update_of_ne (Nat.ne_of_lt hlt) ..
  refine ⟨?_, ?_, ?_, ?_, ?_⟩
  · intro other
    have hcount := h.accounted other
    show (queue.settlements.map Prod.fst).count other + (queue.inflight.values.count other +
      (queue.pending.count other + _)) = if other < queue.created + 1 then 1 else 0
    rw [List.count_cons]
    by_cases heq : queue.created = other
    · subst heq
      rw [if_neg (Nat.lt_irrefl _)] at hcount
      rw [beq_self_eq_true, if_pos rfl, if_pos (Nat.lt_succ_self _)]
      omega
    · rw [beq_false_of_ne heq, if_neg Bool.false_ne_true]
      split at hcount <;> split <;> omega
  · intro id other hother
    have hlt := h.lt_of_inflight (InsertionMap.mem_values_iff.mpr ⟨id, hother⟩)
    rw [hold other hlt]
    exact h.inflight id other hother
  · intro other hother
    rw [hold other (h.lt_of_pending hother)]
    exact h.pending other hother
  · intro first second hfirst hsecond heq
    -- the new request has a correlation id of its own
    rcases Nat.lt_succ_iff_lt_or_eq.mp hfirst with hfirst | rfl <;>
      rcases Nat.lt_succ_iff_lt_or_eq.mp hsecond with hsecond | rfl
    · rw [hold first hfirst, hold second hsecond] at heq
      exact h.distinct first second hfirst hsecond heq
    · rw [hold first hfirst, hnew] at heq
      exact absurd heq (hfresh first hfirst)
    · rw [hold second hsecond, hnew] at heq
      exact absurd heq.symm (hfresh second hsecond)
    · rfl
  · intro other response hother
    have hlt := h.lt_of_settled (List.mem_map_of_mem hother)
    rw [hold other hlt]
    exact h.delivered other response hother

/-- Dispatching the held request keeps track. -/
theorem dispatch (h : Tracks (ref :: held) queue) (hstate : (queue.requests ref).state = .pending) :
    Tracks held (queue.dispatch now ref) := by
  have hsent := @Tracks.sent _ now _ _ h hstate
  unfold RequestQueue.dispatch
  split
  · exact hsent
  · -- the request is taken out of the inflight ones again
    have hdelete := hsent.deleteInflight (queue.requests ref).correlationId
    have hget : (queue.sent now ref).inflight.get? (queue.requests ref).correlationId = some ref :=
      InsertionMap.get?_set_self ..
    rw [hget] at hdelete
    exact hdelete.complete nofun

end Tracks

/-! ## Sending the pending requests -/

/-- Whether a pending request whose turn comes throws, given the number of inflight requests. -/
def turnThrows (queue : RequestQueue) (now : Int) : Nat → List Nat → Bool
  | _, [] => false
  | size, ref :: rest =>
      if queue.roomFor now size then
        (queue.requests ref).sendError.isSome ||
          turnThrows queue now (if (queue.requests ref).expectResponse then size + 1 else size) rest
      else false

/-- Dispatching a request leaves the others alone. -/
theorem dispatch_requests_of_ne {other : Nat} (h : other ≠ ref) :
    (queue.dispatch now ref).requests other = queue.requests other := by
  unfold dispatch
  split
  · exact Function.update_of_ne h ..
  · exact (Function.update_of_ne h ..).trans (Function.update_of_ne h ..)

/-- Dispatching a request leaves the pending ones alone. -/
@[simp] theorem dispatch_pending : (queue.dispatch now ref).pending = queue.pending := by
  unfold dispatch
  split <;> rfl

/-- Dispatching a request leaves `roomFor` alone. -/
@[simp] theorem dispatch_roomFor : (queue.dispatch now ref).roomFor = queue.roomFor := by
  unfold dispatch
  split <;> rfl

/-- Emitting that the queue is empty leaves the requests alone. -/
@[simp] theorem emitRequestQueueEmpty_requests :
    queue.emitRequestQueueEmpty.requests = queue.requests := by
  unfold emitRequestQueueEmpty
  split <;> rfl

/-- Emitting that the queue is empty leaves the pending requests alone. -/
@[simp] theorem emitRequestQueueEmpty_pending :
    queue.emitRequestQueueEmpty.pending = queue.pending := by
  unfold emitRequestQueueEmpty
  split <;> rfl

/-- Emitting that the queue is empty leaves the requests in flight alone. -/
@[simp] theorem emitRequestQueueEmpty_inflight :
    queue.emitRequestQueueEmpty.inflight = queue.inflight := by
  unfold emitRequestQueueEmpty
  split <;> rfl

/-- Emitting that the queue is empty settles nothing. -/
@[simp] theorem emitRequestQueueEmpty_settlements :
    queue.emitRequestQueueEmpty.settlements = queue.settlements := by
  unfold emitRequestQueueEmpty
  split <;> rfl

/-- Emitting that the queue is empty leaves `roomFor` alone. -/
@[simp] theorem emitRequestQueueEmpty_roomFor :
    queue.emitRequestQueueEmpty.roomFor = queue.roomFor := by
  unfold emitRequestQueueEmpty
  split <;> rfl

/-- A request that expects a response takes a place among the inflight ones. -/
theorem length_inflight_dispatch
    (hfree : queue.inflight.has (queue.requests ref).correlationId = false) :
    (queue.dispatch now ref).inflight.entries.length =
      if (queue.requests ref).expectResponse then queue.inflight.entries.length + 1
      else queue.inflight.entries.length := by
  have hlength : ∀ map : InsertionMap Int Nat, map.entries.length = map.values.length :=
    fun map => (List.length_map ..).symm
  have hset := InsertionMap.values_set hfree ref
  unfold dispatch
  split
  · show (queue.inflight.set (queue.requests ref).correlationId ref).entries.length = _
    rw [hlength, hlength, hset, List.length_append, List.length_singleton]
  · -- the request is taken out of the inflight ones again
    have hdelete := (((queue.inflight.set (queue.requests ref).correlationId ref).values_perm_delete
      (queue.requests ref).correlationId).length_eq)
    rw [InsertionMap.get?_set_self, hset, List.length_append, List.length_append] at hdelete
    show ((queue.inflight.set (queue.requests ref).correlationId ref).delete
      (queue.requests ref).correlationId).entries.length = _
    rw [hlength, hlength]
    simpa [Nat.add_comm] using hdelete.symm

/-- What `turnThrows` depends on. -/
theorem turnThrows_congr {other : RequestQueue} {size : Nat} {rest : List Nat}
    (hroom : other.roomFor = queue.roomFor)
    (hrequests : ∀ ref ∈ rest, other.requests ref = queue.requests ref) :
    other.turnThrows now size rest = queue.turnThrows now size rest := by
  induction rest generalizing size with
  | nil => rfl
  | cons ref rest ih =>
      rw [turnThrows, turnThrows, hroom, hrequests ref List.mem_cons_self,
        ih fun other hother => hrequests other (List.mem_cons_of_mem ref hother)]

/-- The loop over the pending requests keeps them tracked, also when it throws, which it does if a
request throws whose turn comes. The induction is on the pending requests. -/
theorem sendPending_spec {held rest : List Nat} (h : Tracks held queue)
    (hpending : queue.pending = rest) :
    Tracks held (Command.exec (sendPending now rest) queue).2 ∧
      (∀ ref ∈ held, (Command.exec (sendPending now rest) queue).2.requests ref =
        queue.requests ref) ∧
      (queue.turnThrows now queue.inflight.entries.length rest = false →
        (Command.exec (sendPending now rest) queue).1 = .ok ()) := by
  induction rest generalizing queue with
  | nil => exact ⟨h, fun _ _ => rfl, fun _ => rfl⟩
  | cons ref rest ih =>
      rw [sendPending, Command.exec_bind, Command.exec_get]
      dsimp only
      by_cases hroom : queue.canSendSocketRequestImmediately now = true
      · have hshift := h.shift hpending
        have hstate : ((queue.setPending rest).requests ref).state = .pending :=
          h.pending ref (hpending ▸ List.mem_cons_self)
        -- whether a request throws whose turn comes is the question for this one, then for the rest
        have hturn : queue.turnThrows now queue.inflight.entries.length (ref :: rest) =
            ((queue.requests ref).sendError.isSome || queue.turnThrows now
              (if (queue.requests ref).expectResponse then queue.inflight.entries.length + 1
                else queue.inflight.entries.length) rest) := by
          rw [turnThrows]
          exact if_pos hroom
        rw [if_pos hroom, Command.exec_bind, Command.exec_modify]
        dsimp only
        rw [Command.exec_bind, exec_sendSocketRequest hstate hshift.has_eq_false, hturn]
        cases herror : ((queue.setPending rest).requests ref).sendError with
        | some error =>
            -- the write throws after the request is in flight: it stays tracked
            refine ⟨hshift.launch hstate, fun _ _ => rfl, fun hnone => ?_⟩
            rw [show (queue.requests ref).sendError = some error from herror] at hnone
            cases hnone
        | none =>
            have hdispatch := @Tracks.dispatch _ now _ _ hshift hstate
            obtain ⟨htracks, hheld, hok⟩ := ih hdispatch.emitRequestQueueEmpty
              (by rw [emitRequestQueueEmpty_pending, dispatch_pending]; rfl)
            dsimp only
            rw [Command.exec_bind, Command.exec_modify]
            refine ⟨htracks, fun other hother => (hheld other hother).trans ?_, fun hnone => hok ?_⟩
            · have hne : other ≠ ref := by
                rintro rfl
                exact hshift.notMem_held hother
              rw [emitRequestQueueEmpty_requests, dispatch_requests_of_ne hne]
              rfl
            · rw [Bool.or_eq_false_iff] at hnone
              rw [emitRequestQueueEmpty_inflight, length_inflight_dispatch hshift.has_eq_false,
                ← hnone.2]
              refine turnThrows_congr ?_ fun other hother => ?_
              · rw [emitRequestQueueEmpty_roomFor, dispatch_roomFor]
                rfl
              · have hne : other ≠ ref := by
                  rintro rfl
                  exact hshift.notMem_pending hother
                rw [emitRequestQueueEmpty_requests, dispatch_requests_of_ne hne]
                rfl
      · rw [if_neg hroom]
        exact ⟨h, fun _ _ => rfl, fun _ => rfl⟩

/-- Whether the check for pending requests runs into a request that throws. -/
def checkThrows (queue : RequestQueue) (now : Int) : Bool :=
  queue.turnThrows now queue.inflight.entries.length queue.pending

/-- The check for pending requests keeps the requests tracked, and throws only if a request throws
whose turn comes. -/
theorem checkPendingRequests_spec {held : List Nat} (h : Tracks held queue) :
    Tracks held (queue.perform (checkPendingRequests now)) ∧
      (∀ ref ∈ held, (queue.perform (checkPendingRequests now)).requests ref =
        queue.requests ref) ∧
      (queue.checkThrows now = false →
        (Command.exec (checkPendingRequests now) queue).1 = .ok ()) := by
  obtain ⟨htracks, hheld, hok⟩ := @sendPending_spec _ now _ _ h rfl
  rw [perform, checkPendingRequests, Command.exec_bind, Command.exec_get]
  dsimp only
  rw [Command.exec_bind]
  rcases hexec : Command.exec (sendPending now queue.pending) queue with ⟨error | value, after⟩
  · rw [hexec] at htracks hheld hok
    exact ⟨htracks, hheld, hok⟩
  · rw [hexec] at htracks hheld
    refine ⟨htracks.scheduleCheckPendingRequests, fun ref href => ?_, fun _ => rfl⟩
    show (scheduleCheckPendingRequests now after).requests ref = _
    rw [← hheld ref href]
    unfold scheduleCheckPendingRequests
    split <;> rfl

/-- A response that matches a request which has been sent settles it, unless the check for pending
requests throws. A response without match settles nothing. -/
theorem fulfillRequest_spec {response : Fulfillment} (h : Tracks [] queue)
    (hsafe : ∀ ref, queue.inflight.get? response.correlationId = some ref →
      (queue.requests ref).state = .sent ∧
        (queue.deleteInflight response.correlationId).checkThrows now = false) :
    Tracks [] (queue.perform (fulfillRequest now response)) ∧
      ∀ ref, queue.inflight.get? response.correlationId = some ref →
        (ref, .resolved (some response)) ∈
          (queue.perform (fulfillRequest now response)).settlements := by
  have hdelete := h.deleteInflight response.correlationId
  obtain ⟨htracks, hheld, hok⟩ := @checkPendingRequests_spec _ now _ hdelete
  rw [perform] at htracks hheld
  rw [perform, fulfillRequest, Command.exec_bind, Command.exec_get]
  dsimp only
  rw [Command.exec_bind, Command.exec_modify]
  dsimp only
  rw [Command.exec_bind]
  cases hget : queue.inflight.get? response.correlationId with
  | none =>
      rw [hget] at htracks
      refine ⟨?_, nofun⟩
      rcases hexec : Command.exec (checkPendingRequests now)
        (queue.deleteInflight response.correlationId) with ⟨error | value, after⟩
      · rw [hexec] at htracks
        exact htracks
      · rw [hexec] at htracks
        exact htracks.emitRequestQueueEmpty
  | some ref =>
      obtain ⟨hsent, hquiet⟩ := hsafe ref hget
      rw [hget] at htracks hheld
      rcases hexec : Command.exec (checkPendingRequests now)
        (queue.deleteInflight response.correlationId) with ⟨error | value, after⟩
      · -- the check does not throw
        have hvalue := hok hquiet
        rw [hexec] at hvalue
        cases hvalue
      · rw [hexec] at htracks hheld
        have hsame : after.requests ref = queue.requests ref := hheld ref List.mem_cons_self
        have hid : (after.requests ref).correlationId = response.correlationId := by
          rw [hsame]
          exact (h.inflight _ ref hget).1
        have hcomplete : Tracks [] (after.complete ref (some response)) :=
          htracks.complete fun other heq => by
            cases heq
            exact hid
        have hstate : (after.requests ref).state = .sent := by rw [hsame, hsent]
        dsimp only
        rw [Command.exec_bind, exec_completed hstate]
        refine ⟨hcomplete.emitRequestQueueEmpty, fun other hother => ?_⟩
        cases hother
        show _ ∈ (after.complete ref (some response)).emitRequestQueueEmpty.settlements
        rw [emitRequestQueueEmpty_settlements]
        exact List.mem_append_right _ List.mem_cons_self

/-- A request that timed out is rejected, unless the check for pending requests throws. -/
theorem timeoutRequest_spec (h : Tracks [] queue) (hmem : ref ∈ queue.inflight.values)
    (hsafe : (queue.deleteInflight (queue.requests ref).correlationId).checkThrows now = false) :
    Tracks [] (queue.perform (timeoutRequest now ref)) := by
  obtain ⟨id, hget⟩ := InsertionMap.mem_values_iff.mp hmem
  obtain ⟨hid, hstate⟩ := h.inflight id ref hget
  have hdelete := h.deleteInflight (queue.requests ref).correlationId
  rw [hid, hget, ← hid] at hdelete
  obtain ⟨htracks, hheld, hok⟩ := @checkPendingRequests_spec _ now _ hdelete
  rw [perform] at htracks hheld
  rw [perform, timeoutRequest, Command.exec_bind, Command.exec_get]
  dsimp only
  rw [Command.exec_bind, Command.exec_modify]
  dsimp only
  rw [Command.exec_bind]
  rcases hexec : Command.exec (checkPendingRequests now)
    (queue.deleteInflight (queue.requests ref).correlationId) with ⟨error | value, after⟩
  · -- the check does not throw
    have hvalue := hok hsafe
    rw [hexec] at hvalue
    cases hvalue
  · rw [hexec] at htracks hheld
    have hsame : after.emitRequestQueueEmpty.requests ref = queue.requests ref := by
      rw [emitRequestQueueEmpty_requests]
      exact hheld ref List.mem_cons_self
    dsimp only
    rw [Command.exec_bind, Command.exec_modify]
    dsimp only
    rw [exec_rejected (by rwa [hsame])]
    exact htracks.emitRequestQueueEmpty.reject _

/-- While `rejectAll` is under way, the requests that are not settled are those still to come. -/
structure Rejecting (rest : List Nat) (queue : RequestQueue) : Prop where
  tracks : Tracks rest queue.clear
  states : ∀ ref ∈ rest, (queue.requests ref).state = .pending ∨ (queue.requests ref).state = .sent

/-- One round of `rejectAll` settles the first request and never throws. -/
theorem ensures_rejectOne (error : KafkaError) (id : Int) (ref : Nat) (rest : List Nat) :
    Ensures (Rejecting (ref :: rest))
      (do
        rejected ref error
        modify (deleteInflight id))
      (fun _ => Rejecting rest) (fun _ _ => False) := by
  rintro queue ⟨htracks, hstates⟩
  rw [Command.exec_bind, exec_rejected (hstates ref List.mem_cons_self)]
  refine ⟨htracks.reject error, fun other hother => ?_⟩
  have hne : other ≠ ref := by
    rintro rfl
    exact htracks.notMem_held hother
  show (Function.update queue.requests ref _ other).state = _ ∨
    (Function.update queue.requests ref _ other).state = _
  rw [Function.update_of_ne hne]
  exact hstates other (List.mem_cons_of_mem ref hother)

/-- `rejectAll` starts with all requests that are not settled. -/
theorem Tracks.rejecting (h : Tracks [] queue) :
    Rejecting (queue.inflight.values ++ queue.pending) queue := by
  refine ⟨⟨?_, nofun, nofun, h.distinct, h.delivered⟩, ?_⟩
  · intro other
    have hcount := h.accounted other
    show (queue.settlements.map Prod.fst).count other + (0 + (0 + _)) =
      if other < queue.created then 1 else 0
    rw [List.count_append]
    rw [List.count_nil] at hcount
    omega
  · intro ref hmem
    rcases List.mem_append.mp hmem with hmem | hmem
    · obtain ⟨id, hget⟩ := InsertionMap.mem_values_iff.mp hmem
      exact (h.inflight id ref hget).2
    · exact Or.inl (h.pending ref hmem)

/-- `rejectAll` settles every request that is not settled, and does not throw. -/
theorem rejectAll_spec (error : KafkaError) (h : Tracks [] queue) :
    Tracks [] (queue.perform (rejectAll error)) := by
  have hloop := ensures_forM (fun ref rest => ensures_rejectOne error
    (queue.requests ref).correlationId ref rest) (queue.inflight.values ++ queue.pending) queue
    h.rejecting
  rw [perform, rejectAll, Command.exec_bind, Command.exec_get]
  dsimp only
  rw [Command.exec_bind]
  rcases hexec : Command.exec ((queue.inflight.values ++ queue.pending).forM fun ref => do
    rejected ref error
    modify (deleteInflight (queue.requests ref).correlationId)) queue with ⟨error | value, after⟩
  · rw [hexec] at hloop
    exact hloop.elim
  · rw [hexec] at hloop
    exact hloop.tracks.emitRequestQueueEmpty

/-- A request with a correlation id of its own that is pushed is tracked, unless it is sent at once
and that throws. -/
theorem push_spec {pushedRequest : PushedRequest} (h : Tracks [] queue)
    (hfresh : ∀ ref < queue.created,
      (queue.requests ref).correlationId ≠ pushedRequest.entry.correlationId)
    (hsafe : queue.canSendSocketRequestImmediately now = true → pushedRequest.sendError = none) :
    (Command.exec (push now pushedRequest) queue).1 = .ok () ∧
      Tracks [] (queue.perform (push now pushedRequest)) := by
  have hcreate := @Tracks.createSocketRequest _ now _ h _ hfresh
  have hrequest : (queue.createSocketRequest now pushedRequest).requests queue.created =
      { entry := pushedRequest.entry
        expectResponse := pushedRequest.expectResponse
        requestTimeout := max queue.requestTimeout (pushedRequest.requestTimeout.getD 0)
        createdAt := now
        sentAt := none
        state := .pending
        sendError := pushedRequest.sendError } := Function.update_self ..
  have hstate : ((queue.createSocketRequest now pushedRequest).requests queue.created).state =
      .pending := by rw [hrequest]
  rw [perform, push, Command.exec_bind, Command.exec_get]
  dsimp only
  rw [Command.exec_bind, Command.exec_modify]
  dsimp only
  by_cases hroom : queue.canSendSocketRequestImmediately now = true
  · rw [if_pos hroom, exec_sendSocketRequest hstate hcreate.has_eq_false, hrequest]
    dsimp only
    rw [hsafe hroom]
    exact ⟨rfl, hcreate.dispatch hstate⟩
  · rw [if_neg hroom]
    exact ⟨rfl, (hcreate.enqueue hstate).scheduleCheckPendingRequests.emitRequestQueueEmpty⟩
/-! ## Runs -/

/-- A request that is pushed has a correlation id of its own. -/
def Fresh (queue : RequestQueue) : Event → Prop
  | .push _ pushedRequest => ∀ ref < queue.created,
      (queue.requests ref).correlationId ≠ pushedRequest.entry.correlationId
  | _ => True

/-- A request that is sent by its `push` does not throw, a response or a timeout of an inflight
request does not run into a pending request that throws, and no response comes for an inflight
request whose own send threw. -/
def Safe (queue : RequestQueue) : Event → Prop
  | .push now pushedRequest =>
      queue.canSendSocketRequestImmediately now = true → pushedRequest.sendError = none
  | .fulfillRequest now response =>
      ∀ ref ∈ queue.inflight.get? response.correlationId,
        (queue.requests ref).state = .sent ∧
          (queue.deleteInflight response.correlationId).checkThrows now = false
  | .timeoutRequest now ref =>
      (queue.deleteInflight (queue.requests ref).correlationId).checkThrows now = false
  | _ => True

/-- `Fresh` is decidable event by event. -/
instance : ∀ (queue : RequestQueue) (event : Event), Decidable (Fresh queue event)
  | queue, .push _ pushedRequest =>
      inferInstanceAs (Decidable (∀ ref < queue.created,
        (queue.requests ref).correlationId ≠ pushedRequest.entry.correlationId))
  | _, .fulfillRequest .. | _, .timeoutRequest .. | _, .rejectAll _ | _, .checkTimer _
  | _, .maybeThrottle .. | _, .scheduleRequestTimeoutCheck | _, .destroy
  | _, .waitForPendingRequests _ => isTrue trivial

/-- `Safe` is decidable event by event. -/
instance : ∀ (queue : RequestQueue) (event : Event), Decidable (Safe queue event)
  | queue, .push now pushedRequest =>
      inferInstanceAs (Decidable
        (queue.canSendSocketRequestImmediately now = true → pushedRequest.sendError = none))
  | queue, .fulfillRequest now response =>
      inferInstanceAs (Decidable (∀ ref ∈ queue.inflight.get? response.correlationId,
        (queue.requests ref).state = .sent ∧
          (queue.deleteInflight response.correlationId).checkThrows now = false))
  | queue, .timeoutRequest now ref =>
      inferInstanceAs (Decidable
        ((queue.deleteInflight (queue.requests ref).correlationId).checkThrows now = false))
  | _, .rejectAll _ | _, .checkTimer _ | _, .maybeThrottle .. | _, .scheduleRequestTimeoutCheck
  | _, .destroy | _, .waitForPendingRequests _ => isTrue trivial

/-- A new queue tracks nothing. -/
theorem tracks_new (maxInFlightRequests : Option Nat) (requestTimeout : Int) (enforce : Bool) :
    Tracks [] (new maxInFlightRequests requestTimeout enforce) :=
  ⟨fun _ => rfl, nofun, nofun, nofun, nofun⟩

/-- One event keeps the requests tracked. -/
theorem tracks_step {next : RequestQueue} {event : Event} (h : Tracks [] queue)
    (hfresh : Fresh queue event) (hsafe : Safe queue event) (hstep : step queue event = some next) :
    Tracks [] next := by
  cases event with
  | push now pushedRequest =>
      obtain ⟨hok, htracks⟩ := push_spec h hfresh hsafe
      rw [perform] at htracks
      rw [step] at hstep
      rcases hexec : Command.exec (push now pushedRequest) queue with ⟨error | value, after⟩
      · rw [hexec] at hok
        cases hok
      · rw [hexec] at hstep htracks
        cases hstep
        exact htracks
  | fulfillRequest now response =>
      cases hstep
      exact (fulfillRequest_spec h hsafe).1
  | timeoutRequest now ref =>
      obtain ⟨⟨-, hmem, -⟩, hnext⟩ := Option.ite_none_right_eq_some.mp hstep
      cases hnext
      exact timeoutRequest_spec h hmem hsafe
  | rejectAll error =>
      cases hstep
      exact rejectAll_spec error h
  | checkTimer now =>
      obtain ⟨-, hnext⟩ := Option.ite_none_right_eq_some.mp hstep
      cases hnext
      have hclear : Tracks [] { queue with throttleCheckTimeoutId := none } :=
        h.congr rfl rfl rfl rfl rfl
      rw [perform, checkTimer, Command.exec_bind, Command.exec_modify]
      exact (checkPendingRequests_spec hclear).1
  | maybeThrottle now time =>
      cases hstep
      unfold maybeThrottle
      split
      · split
        · exact h.congr rfl rfl rfl rfl rfl
        · exact h
      · exact h
  | scheduleRequestTimeoutCheck =>
      cases hstep
      unfold scheduleRequestTimeoutCheck
      split
      · exact h.congr rfl rfl rfl rfl rfl
      · exact h
  | destroy =>
      cases hstep
      exact h.congr rfl rfl rfl rfl rfl
  | waitForPendingRequests waiter =>
      cases hstep
      unfold waitForPendingRequests
      split <;> exact h.congr rfl rfl rfl rfl rfl

/-- What a queue owes the callers of `push`. -/
structure Conserves (queue : RequestQueue) : Prop where
  /-- A request that is not settled is in exactly one of the two containers. -/
  unsettled : ∀ ref < queue.created, ref ∉ queue.settlements.map Prod.fst →
    (ref ∈ queue.inflight.values ∧ ref ∉ queue.pending) ∨
      (ref ∉ queue.inflight.values ∧ ref ∈ queue.pending)
  settled : ∀ ref ∈ queue.settlements.map Prod.fst,
    ref ∉ queue.inflight.values ∧ ref ∉ queue.pending
  once : ∀ ref, (queue.settlements.map Prod.fst).count ref ≤ 1
  delivered : ∀ ref response, (ref, .resolved (some response)) ∈ queue.settlements →
    (queue.requests ref).correlationId = response.correlationId

/-- A queue that keeps track conserves requests. -/
theorem Tracks.conserves (h : Tracks [] queue) : queue.Conserves := by
  refine ⟨?_, ?_, ?_, h.delivered⟩
  · intro ref hlt hunsettled
    have hcount := h.accounted ref
    rw [if_pos hlt, List.count_eq_zero.mpr hunsettled, List.count_nil] at hcount
    rw [← List.count_eq_zero, ← List.count_eq_zero, ← List.count_pos_iff, ← List.count_pos_iff]
    omega
  · intro ref hmem
    have hcount := h.accounted ref
    have hpositive := List.count_pos_iff.mpr hmem
    rw [if_pos (h.lt_of_settled hmem)] at hcount
    rw [← List.count_eq_zero, ← List.count_eq_zero]
    omega
  · intro ref
    have hcount := h.accounted ref
    split at hcount <;> omega

/-- In every run with distinct correlation ids whose steps are safe, every request that is not
settled is in exactly one container, a settled one is in neither and is settled once, responses go
to the requests with their correlation ids, and the next response reaches the request it matches. -/
theorem conserves_of_safe {maxInFlightRequests : Option Nat} {requestTimeout : Int}
    {enforceRequestTimeout : Bool} {events : List Event}
    (hsafe : Meets step (fun queue event => Fresh queue event ∧ Safe queue event)
      (new maxInFlightRequests requestTimeout enforceRequestTimeout) events)
    (hrun : run step (new maxInFlightRequests requestTimeout enforceRequestTimeout) events =
      some queue) :
    queue.Conserves ∧ ∀ now response ref,
      queue.inflight.get? response.correlationId = some ref →
      Safe queue (.fulfillRequest now response) →
      ∃ next, step queue (.fulfillRequest now response) = some next ∧
        (ref, .resolved (some response)) ∈ next.settlements := by
  have htracks : Tracks [] queue := invariant_of_meets
    (fun _ _ _ h hok hstep => tracks_step h hok.1 hok.2 hstep) (tracks_new _ _ _) hsafe hrun
  refine ⟨htracks.conserves, fun now response ref hget hnext => ?_⟩
  exact ⟨_, rfl, (fulfillRequest_spec htracks hnext).2 ref hget⟩

/-- A metadata request. -/
def sampleRequest (correlationId : Int) (sendError : Option KafkaError) : PushedRequest :=
  { entry := ⟨3, "Metadata", 5, correlationId⟩, expectResponse := true, requestTimeout := none,
    sendError }

/-- With a limit of one inflight request, the second request is sent when the response of the first
one arrives, and times out. -/
def sampleEvents : List Event :=
  [.scheduleRequestTimeoutCheck, .push 0 (sampleRequest 1 none), .push 1 (sampleRequest 2 none),
    .fulfillRequest 5 ⟨1, [], 4⟩, .timeoutRequest 40000 1, .push 40001 (sampleRequest 3 none)]

/-- Two requests that take turns in flight are conserved. -/
theorem conserves_sampleEvents :
    ∃ queue, run step (new (some 1) 30000 true) sampleEvents = some queue ∧
      queue.Conserves ∧ ∀ now response ref,
        queue.inflight.get? response.correlationId = some ref →
        Safe queue (.fulfillRequest now response) →
        ∃ next, step queue (.fulfillRequest now response) = some next ∧
          (ref, .resolved (some response)) ∈ next.settlements := by
  have hsome : (run step (new (some 1) 30000 true) sampleEvents).isSome := by decide
  obtain ⟨queue, hqueue⟩ := Option.isSome_iff_exists.mp hsome
  exact ⟨queue, hqueue, conserves_of_safe (by decide) hqueue⟩

/-- What a socket that has been destroyed throws. -/
def writeError : KafkaError :=
  { name := .kafkaJSError, message := "Cannot call write after a stream was destroyed" }

/-- The response of the first request makes room for the second one, whose send throws. -/
def lostResponse : List Event :=
  [.push 0 (sampleRequest 1 none), .push 1 (sampleRequest 2 (some writeError)),
    .fulfillRequest 5 ⟨1, [], 4⟩]

/-- The first request then is not settled and in no container. -/
theorem not_conserves_lostResponse :
    ∃ queue, run step (new (some 1) 30000 true) lostResponse = some queue ∧
      Meets step Fresh (new (some 1) 30000 true) lostResponse ∧ ¬ queue.Conserves := by
  have hlost : (run step (new (some 1) 30000 true) lostResponse).map
      (fun queue => (queue.created, queue.settlements.map Prod.fst, queue.inflight.values,
        queue.pending)) = some (2, [], [1], []) := by decide
  obtain ⟨queue, hqueue, hfields⟩ := Option.map_eq_some_iff.mp hlost
  refine ⟨queue, hqueue, by decide, fun h => ?_⟩
  obtain ⟨hcreated, hsettled, hinflight, hpending⟩ : queue.created = 2 ∧
      queue.settlements.map Prod.fst = [] ∧ queue.inflight.values = [1] ∧ queue.pending = [] := by
    simpa using hfields
  have hfirst := h.unsettled 0 (by omega) (by rw [hsettled]; exact List.not_mem_nil)
  rw [hinflight, hpending] at hfirst
  exact absurd hfirst (by decide)

end RequestQueue

end KafkaJs.Network
