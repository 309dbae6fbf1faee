import KafkaJs.Network.Disconnection
import Mathlib.Data.List.Induction

/-!
# The wake-up of pending requests

A pending request is sent by `checkPendingRequests`, which runs when the timer for pending requests
fires, when a response arrives and when the interval finds that an inflight request has timed out.
A queue is `Awake` if one of these is still to come while requests are pending.

`destroy` clears both timers, whatever is pending. It is called when the interval finds that the
connection is down, when `disconnect` goes on after its wait, and by `scheduleRequestTimeoutCheck`
when a socket gets connected. `awake_iff` says that the queue stays awake through a run exactly if
these calls come at a harmless time, and if no send throws in the timer while the interval is off.
-/

namespace KafkaJs.Network

open KafkaJs.Data KafkaJs.Execution KafkaJs.Protocol

namespace RequestQueue

/-- While requests are pending, the timer for them runs, or there are inflight requests which the
interval watches. -/
def Awake (queue : RequestQueue) : Prop :=
  queue.pending ≠ [] → queue.throttleCheckTimeoutId.isSome = true ∨
    (queue.inflight.entries ≠ [] ∧ queue.requestTimeoutInterval = true)

/-- Whether the check for pending requests throws before it comes to the last one, given the
correlation ids of the inflight requests: a request that is sent throws if its correlation id is
taken, or when it is written. -/
def strands (queue : RequestQueue) (now : Int) : List Int → List Nat → Bool
  | _, [] => false
  | ids, ref :: rest =>
      if queue.roomFor now ids.length then
        if (queue.requests ref).correlationId ∈ ids ∨ (queue.requests ref).sendError.isSome then
          rest ≠ []
        else
          queue.strands now
            (if (queue.requests ref).expectResponse then ids ++ [(queue.requests ref).correlationId]
              else ids) rest
      else false

/-- The event leaves no pending requests behind without a wake-up. -/
def KeepsAwake (queue : RequestQueue) : Event → Prop
  | .destroy => queue.pending = []
  | .scheduleRequestTimeoutCheck =>
      queue.enforceRequestTimeout = true → queue.pending = [] ∨ queue.inflight.entries ≠ []
  | .checkTimer now =>
      queue.requestTimeoutInterval = true ∨
        queue.strands now queue.inflight.keys queue.pending = false
  | _ => True

variable {queue next : RequestQueue} {now : Int} {ref : Nat}

/-- Without pending requests there is nothing to wake up. -/
theorem awake_of_pending (h : queue.pending = []) : queue.Awake := fun hpending =>
  absurd h hpending

/-- A queue with a timer for the check is awake. -/
theorem awake_of_timer (h : queue.throttleCheckTimeoutId.isSome = true) : queue.Awake :=
  fun _ => Or.inl h

/-- A queue with requests in flight and the interval for their timeouts is awake. -/
theorem awake_of_interval (hinflight : queue.inflight.entries ≠ [])
    (hinterval : queue.requestTimeoutInterval = true) : queue.Awake :=
  fun _ => Or.inr ⟨hinflight, hinterval⟩

/-- What a queue that is awake depends on. -/
theorem Awake.congr (h : queue.Awake) (hpending : next.pending = queue.pending)
    (htimer : next.throttleCheckTimeoutId = queue.throttleCheckTimeoutId)
    (hinflight : next.inflight = queue.inflight)
    (hinterval : next.requestTimeoutInterval = queue.requestTimeoutInterval) : next.Awake := by
  rw [Awake, hpending, htimer, hinflight, hinterval]
  exact h

/-! ## Where the requests are -/

/-- The requests that are pending or inflight. -/
def refs (queue : RequestQueue) : List Nat := queue.pending ++ queue.inflight.values

/-- A request is pending or inflight once, in a state that fits. Nothing is assumed of the
correlation ids and of sends that throw. -/
structure Placed (queue : RequestQueue) : Prop where
  nodup : queue.refs.Nodup
  created : ∀ ref ∈ queue.refs, ref < queue.created
  inflight : ∀ id ref, queue.inflight.get? id = some ref →
    (queue.requests ref).correlationId = id ∧
      ((queue.requests ref).state = .pending ∨ (queue.requests ref).state = .sent)
  pending : ∀ ref ∈ queue.pending, (queue.requests ref).state = .pending

namespace Placed

/-- What changes nothing about the requests keeps them placed. -/
theorem congr (h : Placed queue) (hrequests : next.requests = queue.requests)
    (hcreated : next.created = queue.created) (hinflight : next.inflight = queue.inflight)
    (hpending : next.pending = queue.pending) : Placed next := by
  have hrefs : next.refs = queue.refs := by rw [refs, refs, hpending, hinflight]
  refine ⟨hrefs ▸ h.nodup, ?_, ?_, ?_⟩
  · rw [hrefs, hcreated]
    exact h.created
  · rw [hinflight, hrequests]
    exact h.inflight
  · rw [hpending, hrequests]
    exact h.pending

/-- The first pending request is in neither container when it has been taken out. -/
theorem shift {rest : List Nat} (h : Placed queue) (hpending : queue.pending = ref :: rest) :
    Placed (queue.setPending rest) ∧ ref ∉ (queue.setPending rest).refs := by
  have hrefs : queue.refs = ref :: (queue.setPending rest).refs := by
    rw [refs, hpending]
    rfl
  have hnodup := h.nodup
  rw [hrefs, List.nodup_cons] at hnodup
  refine ⟨⟨hnodup.2, fun other hother => h.created other ?_, h.inflight, ?_⟩, hnodup.1⟩
  · rw [hrefs]
    exact List.mem_cons_of_mem ref hother
  · exact fun other hother => h.pending other (hpending ▸ List.mem_cons_of_mem ref hother)

/-- A request that is in neither container is put among the inflight ones. -/
theorem launch (h : Placed queue) (hmem : ref ∉ queue.refs) (hcreated : ref < queue.created)
    (hstate : (queue.requests ref).state = .pending)
    (hfree : queue.inflight.has (queue.requests ref).correlationId = false) :
    Placed (queue.launch ref) := by
  have hrefs : (queue.launch ref).refs = queue.refs ++ [ref] := by
    show queue.pending ++ (queue.inflight.set (queue.requests ref).correlationId ref).values = _
    rw [InsertionMap.values_set hfree, ← List.append_assoc]
    rfl
  refine ⟨?_, ?_, ?_, h.pending⟩
  · rw [hrefs]
    exact h.nodup.append (List.nodup_singleton ref) (List.disjoint_singleton.mpr hmem)
  · intro other hother
    rw [hrefs, List.mem_append, List.mem_singleton] at hother
    rcases hother with hother | heq
    · exact h.created other hother
    · exact heq ▸ hcreated
  · intro id other hother
    change (queue.inflight.set (queue.requests ref).correlationId ref).get? id = some other at hother
    rw [InsertionMap.get?_set] at hother
    split at hother
    · next heq =>
        cases hother
        exact ⟨heq.symm, Or.inl hstate⟩
    · exact h.inflight id other hother

/-- A change of the state of a request that is not pending. -/
theorem update (h : Placed queue) (hpending : ref ∉ queue.pending)
    {change : SocketRequest → SocketRequest}
    (hid : (change (queue.requests ref)).correlationId = (queue.requests ref).correlationId)
    (hstate : ref ∈ queue.inflight.values → (change (queue.requests ref)).state = .pending ∨
      (change (queue.requests ref)).state = .sent) : Placed (queue.update ref change) := by
  refine ⟨h.nodup, h.created, ?_, ?_⟩
  · intro id other hother
    obtain ⟨hmatch, hold⟩ := h.inflight id other hother
    show (Function.update queue.requests ref _ other).correlationId = id ∧
      ((Function.update queue.requests ref _ other).state = _ ∨
        (Function.update queue.requests ref _ other).state = _)
    by_cases heq : other = ref
    · subst heq
      rw [Function.update_self]
      exact ⟨hid.trans hmatch, hstate (InsertionMap.mem_values_iff.mpr ⟨id, hother⟩)⟩
    · rw [Function.update_of_ne heq]
      exact ⟨hmatch, hold⟩
  · intro other hother
    have hne : other ≠ ref := fun heq => hpending (heq ▸ hother)
    show (Function.update queue.requests ref _ other).state = _
    rw [Function.update_of_ne hne]
    exact h.pending other hother

/-- A settlement of a request that is in neither container. -/
theorem settle (h : Placed queue) (hmem : ref ∉ queue.refs)
    {change : SocketRequest → SocketRequest} {settlement : Settlement}
    (hid : (change (queue.requests ref)).correlationId = (queue.requests ref).correlationId) :
    Placed ((queue.update ref change).settle ref settlement) := by
  have hupdate : Placed (queue.update ref change) := by
    refine h.update (fun hpending => hmem (List.mem_append_left _ hpending)) hid ?_
    exact fun hinflight => absurd (List.mem_append_right _ hinflight) hmem
  exact hupdate.congr rfl rfl rfl rfl

/-- A correlation id is taken out of the inflight ones, and the request under it with it. -/
theorem deleteInflight (h : Placed queue) (id : Int) :
    Placed (queue.deleteInflight id) ∧
      (∀ other ∈ (queue.deleteInflight id).refs, other ∈ queue.refs) ∧
      ∀ ref, queue.inflight.get? id = some ref → ref ∉ (queue.deleteInflight id).refs := by
  have hsublist : (queue.deleteInflight id).refs.Sublist queue.refs :=
    List.Sublist.append_left (List.filter_sublist.map Prod.snd) _
  refine ⟨⟨h.nodup.sublist hsublist, ?_, ?_, h.pending⟩, fun _ hmem => hsublist.subset hmem, ?_⟩
  · exact fun other hother => h.created other (hsublist.subset hother)
  · intro other found hfound
    change (queue.inflight.delete id).get? other = some found at hfound
    rw [InsertionMap.get?_delete] at hfound
    split at hfound
    · cases hfound
    · exact h.inflight other found hfound
  · intro ref hget hmem
    rcases List.mem_append.mp hmem with hpending | hinflight
    · have hboth := (List.nodup_append.mp h.nodup).2.2 ref hpending ref
        (InsertionMap.mem_values_iff.mpr ⟨id, hget⟩)
      exact hboth rfl
    · obtain ⟨other, hother⟩ := InsertionMap.mem_values_iff.mp hinflight
      change (queue.inflight.delete id).get? other = some ref at hother
      rw [InsertionMap.get?_delete] at hother
      split at hother
      · cases hother
      · next hne => exact hne ((h.inflight other ref hother).1.symm.trans (h.inflight id ref hget).1)

/-- A request that is in neither container is sent. -/
theorem sent (h : Placed queue) (hmem : ref ∉ queue.refs) (hcreated : ref < queue.created)
    (hstate : (queue.requests ref).state = .pending)
    (hfree : queue.inflight.has (queue.requests ref).correlationId = false) :
    Placed (queue.sent now ref) := by
  have hlaunch : Placed { queue.launch ref with written := queue.written ++ [ref] } :=
    (h.launch hmem hcreated hstate hfree).congr rfl rfl rfl rfl
  exact hlaunch.update (fun hpending => hmem (List.mem_append_left _ hpending)) rfl
    fun _ => Or.inr rfl

/-- The rest of `dispatch`, for a request that expects no response. -/
theorem dispatch (h : Placed queue) (hmem : ref ∉ queue.refs) (hcreated : ref < queue.created)
    (hstate : (queue.requests ref).state = .pending)
    (hfree : queue.inflight.has (queue.requests ref).correlationId = false) :
    Placed (queue.dispatch now ref) := by
  have hsent := @Placed.sent _ now _ h hmem hcreated hstate hfree
  unfold RequestQueue.dispatch
  split
  · exact hsent
  · obtain ⟨hdelete, -, hgone⟩ := hsent.deleteInflight (queue.requests ref).correlationId
    have hget : (queue.sent now ref).inflight.get? (queue.requests ref).correlationId = some ref :=
      InsertionMap.get?_set_self ..
    exact hdelete.settle (hgone ref hget) rfl

end Placed

/-! ## The check for pending requests -/

/-- What the check does to the containers and leaves of the timers. -/
structure Checked (queue next : RequestQueue) : Prop where
  placed : Placed next
  created : next.created = queue.created
  refs : ∀ ref ∈ next.refs, ref ∈ queue.refs
  interval : next.requestTimeoutInterval = queue.requestTimeoutInterval

/-- The correlation id of a request that expects a response is taken after it has been sent. -/
theorem keys_dispatch
    (hfree : queue.inflight.has (queue.requests ref).correlationId = false) :
    (queue.dispatch now ref).inflight.keys =
      if (queue.requests ref).expectResponse then
        queue.inflight.keys ++ [(queue.requests ref).correlationId]
      else queue.inflight.keys := by
  unfold dispatch
  split
  · show (queue.inflight.set (queue.requests ref).correlationId ref).keys = _
    have habsent : (queue.requests ref).correlationId ∉ queue.inflight.keys := by
      rw [← InsertionMap.has_iff_mem_keys, hfree]
      exact Bool.false_ne_true
    rw [InsertionMap.set, dif_neg habsent, InsertionMap.keys, List.map_append]
    rfl
  · show ((queue.inflight.set (queue.requests ref).correlationId ref).delete
      (queue.requests ref).correlationId).keys = _
    rw [InsertionMap.keys, InsertionMap.entries_delete_set hfree, InsertionMap.keys]

/-- A request that is put among the inflight ones is the only new one in the containers. -/
theorem refs_launch {other : Nat} (h : other ∈ (queue.launch ref).refs) :
    other ∈ queue.refs ∨ other = ref := by
  rcases List.mem_append.mp h with hpending | hinflight
  · exact Or.inl (List.mem_append_left _ hpending)
  · obtain ⟨id, hget⟩ := InsertionMap.mem_values_iff.mp hinflight
    change (queue.inflight.set (queue.requests ref).correlationId ref).get? id = some other at hget
    rw [InsertionMap.get?_set] at hget
    split at hget
    · cases hget
      exact Or.inr rfl
    · exact Or.inl (List.mem_append_right _ (InsertionMap.mem_values_iff.mpr ⟨id, hget⟩))

/-- The requests after one was dispatched. -/
theorem refs_dispatch {other : Nat} (h : other ∈ (queue.dispatch now ref).refs) :
    other ∈ queue.refs ∨ other = ref := by
  unfold dispatch at h
  split at h
  · exact refs_launch h
  · refine refs_launch ?_
    rcases List.mem_append.mp h with hpending | hinflight
    · exact List.mem_append_left _ hpending
    · exact List.mem_append_right _ ((List.filter_sublist.map Prod.snd).subset hinflight)

/-- What `strands` depends on. -/
theorem strands_congr {other : RequestQueue} {ids : List Int} {rest : List Nat}
    (hroom : other.roomFor = queue.roomFor)
    (hrequests : ∀ ref ∈ rest, other.requests ref = queue.requests ref) :
    other.strands now ids rest = queue.strands now ids rest := by
  induction rest generalizing ids with
  | nil => rfl
  | cons ref rest ih =>
      rw [strands, strands, hroom, hrequests ref List.mem_cons_self,
        ih fun other hother => hrequests other (List.mem_cons_of_mem ref hother)]

/-- Dispatching a request leaves the timers alone. -/
theorem dispatch_timers :
    (queue.dispatch now ref).throttleCheckTimeoutId = queue.throttleCheckTimeoutId ∧
      (queue.dispatch now ref).requestTimeoutInterval = queue.requestTimeoutInterval := by
  unfold dispatch
  split <;> exact ⟨rfl, rfl⟩

/-- Emitting that the queue is empty leaves the timers alone. -/
theorem emitRequestQueueEmpty_timers :
    queue.emitRequestQueueEmpty.throttleCheckTimeoutId = queue.throttleCheckTimeoutId ∧
      queue.emitRequestQueueEmpty.requestTimeoutInterval = queue.requestTimeoutInterval ∧
        queue.emitRequestQueueEmpty.created = queue.created := by
  unfold emitRequestQueueEmpty
  split <;> exact ⟨rfl, rfl, rfl⟩

/-- Taking out the first pending request adds nothing to the containers. -/
theorem refs_setPending {rest : List Nat} {other : Nat} (hpending : queue.pending = ref :: rest)
    (h : other ∈ (queue.setPending rest).refs ∨ other = ref) : other ∈ queue.refs := by
  have hrefs : queue.refs = ref :: (queue.setPending rest).refs := by
    rw [refs, hpending]
    rfl
  rw [hrefs]
  rcases h with hold | heq
  · exact List.mem_cons_of_mem ref hold
  · exact heq ▸ List.mem_cons_self

/-- The first pending request is sent. -/
theorem checked_dispatch {rest : List Nat} (h : Placed queue) (hpending : queue.pending = ref :: rest)
    (hfree : queue.inflight.has (queue.requests ref).correlationId = false) :
    Checked queue ((queue.setPending rest).dispatch now ref).emitRequestQueueEmpty := by
  obtain ⟨hshift, hmem⟩ := h.shift hpending
  have hcreated := h.created ref (refs_setPending hpending (Or.inr rfl))
  have hstate := h.pending ref (hpending ▸ List.mem_cons_self)
  have hdispatch := @Placed.dispatch _ now _ hshift hmem hcreated hstate hfree
  refine ⟨?_, ?_, ?_, ?_⟩
  · exact hdispatch.congr emitRequestQueueEmpty_requests emitRequestQueueEmpty_timers.2.2
      emitRequestQueueEmpty_inflight emitRequestQueueEmpty_pending
  · exact emitRequestQueueEmpty_timers.2.2.trans dispatch_created
  · intro other hother
    rw [refs, emitRequestQueueEmpty_pending, emitRequestQueueEmpty_inflight] at hother
    exact refs_setPending hpending (refs_dispatch hother)
  · exact emitRequestQueueEmpty_timers.2.1.trans dispatch_timers.2

/-- The first pending request is put among the inflight ones, and its send throws. -/
theorem checked_launch {rest : List Nat} (h : Placed queue) (hpending : queue.pending = ref :: rest)
    (hfree : queue.inflight.has (queue.requests ref).correlationId = false) :
    Checked queue ((queue.setPending rest).launch ref) := by
  obtain ⟨hshift, hmem⟩ := h.shift hpending
  have hcreated := h.created ref (refs_setPending hpending (Or.inr rfl))
  have hstate := h.pending ref (hpending ▸ List.mem_cons_self)
  refine ⟨hshift.launch hmem hcreated hstate hfree, rfl, ?_, rfl⟩
  exact fun other hother => refs_setPending hpending (refs_launch hother)

/-- A queue that is not touched is checked. -/
theorem Checked.refl (h : Placed queue) : Checked queue queue := ⟨h, rfl, fun _ href => href, rfl⟩

/-- Two checks, one after the other. -/
theorem Checked.trans {last : RequestQueue} (hfirst : Checked queue next)
    (hlast : Checked next last) : Checked queue last where
  placed := hlast.placed
  created := hlast.created.trans hfirst.created
  refs ref href := hfirst.refs ref (hlast.refs ref href)
  interval := hlast.interval.trans hfirst.interval

/-- What a send that throws leaves: its request, or the one whose correlation id it has, is
inflight. -/
structure Stopped (queue next : RequestQueue) : Prop extends Checked queue next where
  inflight : next.inflight.entries ≠ []
  timer : next.throttleCheckTimeoutId = queue.throttleCheckTimeoutId

/-- A send of the first pending request that throws. -/
theorem exec_sendSocketRequest_throws {rest : List Nat} (h : Placed queue)
    (hpending : queue.pending = ref :: rest)
    (hthrows : (queue.requests ref).correlationId ∈ queue.inflight.keys ∨
      (queue.requests ref).sendError.isSome) :
    ∃ error after,
      Command.exec (sendSocketRequest now ref) (queue.setPending rest) = (.error error, after) ∧
        Stopped queue after ∧ after.pending = rest := by
  have hstate := h.pending ref (hpending ▸ List.mem_cons_self)
  cases hfree : queue.inflight.has (queue.requests ref).correlationId with
  | true =>
      obtain ⟨error, hexec⟩ := @exec_sendSocketRequest_taken (queue.setPending rest) now ref hstate
        hfree
      refine ⟨error, _, hexec, ⟨⟨(h.shift hpending).1, rfl, ?_, rfl⟩, ?_, rfl⟩, rfl⟩
      · exact fun other hother => refs_setPending hpending (Or.inl hother)
      · obtain ⟨value, hget⟩ := Option.isSome_iff_exists.mp hfree
        exact List.ne_nil_of_mem (InsertionMap.mem_entries_iff.mpr hget)
  | false =>
      have habsent : (queue.requests ref).correlationId ∉ queue.inflight.keys := by
        rw [← InsertionMap.has_iff_mem_keys, hfree]
        exact Bool.false_ne_true
      obtain ⟨error, herror⟩ := Option.isSome_iff_exists.mp (hthrows.resolve_left habsent)
      have hexec := @exec_sendSocketRequest (queue.setPending rest) now ref hstate hfree
      rw [show ((queue.setPending rest).requests ref).sendError = some error from herror] at hexec
      refine ⟨error, _, hexec, ⟨checked_launch h hpending hfree, ?_, rfl⟩, rfl⟩
      have hget : ((queue.setPending rest).launch ref).inflight.get?
          (queue.requests ref).correlationId = some ref := InsertionMap.get?_set_self ..
      exact List.ne_nil_of_mem (InsertionMap.mem_entries_iff.mpr hget)

/-- What a send of the first pending request that does not throw leaves to the check. -/
theorem strands_dispatch {rest : List Nat} (h : Placed queue) (hpending : queue.pending = ref :: rest)
    (hfree : queue.inflight.has (queue.requests ref).correlationId = false) :
    let after := ((queue.setPending rest).dispatch now ref).emitRequestQueueEmpty
    after.strands now after.inflight.keys rest =
      queue.strands now
        (if (queue.requests ref).expectResponse then
          queue.inflight.keys ++ [(queue.requests ref).correlationId]
        else queue.inflight.keys) rest := by
  intro after
  have hkeys : after.inflight.keys = _ :=
    (congrArg InsertionMap.keys emitRequestQueueEmpty_inflight).trans
      (@keys_dispatch (queue.setPending rest) now ref hfree)
  rw [hkeys]
  refine strands_congr ?_ fun other hother => ?_
  · rw [emitRequestQueueEmpty_roomFor, dispatch_roomFor]
    rfl
  · have hne : other ≠ ref := by
      intro heq
      exact (h.shift hpending).2 (List.mem_append_left _ (heq ▸ hother))
    rw [emitRequestQueueEmpty_requests, dispatch_requests_of_ne hne]
    rfl

/-- The loop over the pending requests. It throws exactly at a request that `strands` sees, and then
leaves those after it pending. The induction is on the pending requests. -/
theorem sendPending_outcome {rest : List Nat} (h : Placed queue) (hpending : queue.pending = rest) :
    match Command.exec (sendPending now rest) queue with
    | (.ok _, after) =>
        Checked queue after ∧ queue.strands now queue.inflight.keys rest = false
    | (.error _, after) =>
        Stopped queue after ∧
          (after.pending = [] ↔ queue.strands now queue.inflight.keys rest = false) := by
  induction rest generalizing queue with
  | nil => exact ⟨.refl h, rfl⟩
  | cons ref rest ih =>
      have hlength : queue.inflight.keys.length = queue.inflight.entries.length :=
        List.length_map ..
      rw [sendPending, Command.exec_bind, Command.exec_get, strands, hlength]
      dsimp only
      by_cases hroom : queue.canSendSocketRequestImmediately now = true
      · rw [if_pos hroom, Command.exec_bind, Command.exec_modify]
        dsimp only
        rw [Command.exec_bind, if_pos (show queue.roomFor now _ = true from hroom)]
        by_cases hthrows : (queue.requests ref).correlationId ∈ queue.inflight.keys ∨
            (queue.requests ref).sendError.isSome
        · obtain ⟨error, after, hexec, hstopped, hafter⟩ :=
            @exec_sendSocketRequest_throws _ now _ _ h hpending hthrows
          rw [hexec, if_pos hthrows]
          refine ⟨hstopped, ?_⟩
          rw [hafter]
          simp
        · have hfree : queue.inflight.has (queue.requests ref).correlationId = false := by
            rw [← Bool.not_eq_true, InsertionMap.has_iff_mem_keys]
            exact fun htaken => hthrows (Or.inl htaken)
          have herror : ((queue.setPending rest).requests ref).sendError = none :=
            Option.not_isSome_iff_eq_none.mp fun hsome => hthrows (Or.inr hsome)
          have hchecked := @checked_dispatch _ now _ _ h hpending hfree
          -- the rest of the loop, after this request has gone out
          have hrest := ih hchecked.placed
            (by rw [emitRequestQueueEmpty_pending, dispatch_pending]; rfl)
          rw [strands_dispatch h hpending hfree] at hrest
          have hsend := @exec_sendSocketRequest (queue.setPending rest) now ref
            (h.pending ref (hpending ▸ List.mem_cons_self)) hfree
          rw [herror] at hsend
          rw [hsend, if_neg hthrows]
          dsimp only
          rw [Command.exec_bind, Command.exec_modify]
          dsimp only
          rw [emitQueueSizeEvent]
          rcases hexec : Command.exec (sendPending now rest)
            ((queue.setPending rest).dispatch now ref).emitRequestQueueEmpty with
            ⟨error | value, after⟩
          · rw [hexec] at hrest
            obtain ⟨⟨hafter, hinflight, htimer⟩, hpend⟩ := hrest
            refine ⟨⟨hchecked.trans hafter, hinflight, htimer.trans ?_⟩, hpend⟩
            exact emitRequestQueueEmpty_timers.1.trans dispatch_timers.1
          · rw [hexec] at hrest
            exact ⟨hchecked.trans hrest.1, hrest.2⟩
      · rw [if_neg hroom, if_neg (show ¬ queue.roomFor now _ = true from hroom)]
        exact ⟨.refl h, rfl⟩

/-- The check for pending requests starts the timer, unless it throws. -/
theorem checkPendingRequests_outcome (h : Placed queue) :
    match Command.exec (checkPendingRequests now) queue with
    | (.ok _, after) =>
        Checked queue after ∧ after.throttleCheckTimeoutId.isSome = true ∧
          queue.strands now queue.inflight.keys queue.pending = false
    | (.error _, after) =>
        Stopped queue after ∧
          (after.pending = [] ↔ queue.strands now queue.inflight.keys queue.pending = false) := by
  have hloop := @sendPending_outcome _ now _ h rfl
  rw [checkPendingRequests, Command.exec_bind, Command.exec_get]
  dsimp only
  rw [Command.exec_bind]
  rcases hexec : Command.exec (sendPending now queue.pending) queue with ⟨error | value, after⟩
  · rw [hexec] at hloop
    exact hloop
  · rw [hexec] at hloop
    obtain ⟨hchecked, hstrands⟩ := hloop
    dsimp only
    rw [Command.exec_modify]
    refine ⟨hchecked.trans ?_, ?_, hstrands⟩
    · unfold scheduleCheckPendingRequests
      split
      · exact .refl hchecked.placed
      · exact ⟨hchecked.placed.congr rfl rfl rfl rfl, rfl, fun _ href => href, rfl⟩
    · unfold scheduleCheckPendingRequests
      split
      · next htimer => exact htimer ▸ rfl
      · rfl

/-- After the check the queue is awake if it was awake before, since a send that throws stays
inflight. -/
theorem awake_checkPendingRequests (h : Placed queue) (hawake : queue.pending = [] ∨
    queue.throttleCheckTimeoutId.isSome = true ∨ queue.requestTimeoutInterval = true) :
    Checked queue (queue.perform (checkPendingRequests now)) ∧
      (queue.perform (checkPendingRequests now)).Awake := by
  have hcheck := @checkPendingRequests_outcome _ now h
  rw [perform]
  rcases hexec : Command.exec (checkPendingRequests now) queue with ⟨error | value, after⟩
  · rw [hexec] at hcheck
    obtain ⟨⟨hchecked, hinflight, htimer⟩, hpending⟩ := hcheck
    refine ⟨hchecked, ?_⟩
    rcases hawake with hnone | hsome | hinterval
    · refine awake_of_pending (hpending.mpr ?_)
      rw [hnone, strands]
    · exact awake_of_timer (htimer ▸ hsome)
    · exact awake_of_interval hinflight (hchecked.interval.trans hinterval)
  · rw [hexec] at hcheck
    exact ⟨hcheck.1, awake_of_timer hcheck.2.1⟩

/-! ## The events -/

/-- The queue is as it should be after an event. -/
def Fine (queue : RequestQueue) : Prop := Placed queue ∧ queue.Awake

/-- Emitting that the queue is empty keeps the queue fine. -/
theorem Fine.emitRequestQueueEmpty (h : Fine queue) : Fine queue.emitRequestQueueEmpty := by
  obtain ⟨htimer, hinterval, hcreated⟩ := @emitRequestQueueEmpty_timers queue
  exact ⟨h.1.congr emitRequestQueueEmpty_requests hcreated emitRequestQueueEmpty_inflight
      emitRequestQueueEmpty_pending,
    h.2.congr emitRequestQueueEmpty_pending htimer emitRequestQueueEmpty_inflight hinterval⟩

/-- A settlement of a request that is in neither container. -/
theorem Fine.settle (h : Fine queue) (hmem : ref ∉ queue.refs)
    {change : SocketRequest → SocketRequest} {settlement : Settlement}
    (hid : (change (queue.requests ref)).correlationId = (queue.requests ref).correlationId) :
    Fine ((queue.update ref change).settle ref settlement) :=
  ⟨h.1.settle hmem hid, h.2.congr rfl rfl rfl rfl⟩

/-- The check after an inflight request has been taken out, and what follows unless it throws. -/
theorem fine_checked {id : Int} {rest : Unit → Action} (h : Fine queue)
    (hrest : ∀ after, Fine after →
      (∀ ref, queue.inflight.get? id = some ref → ref ∉ after.refs) →
      Fine (after.perform (rest ()))) :
    Fine ((queue.deleteInflight id).perform (checkPendingRequests now >>= rest)) := by
  obtain ⟨hdelete, -, hgone⟩ := h.1.deleteInflight id
  have hwatched : (queue.deleteInflight id).pending = [] ∨
      (queue.deleteInflight id).throttleCheckTimeoutId.isSome = true ∨
        (queue.deleteInflight id).requestTimeoutInterval = true := by
    by_cases hpending : queue.pending = []
    · exact Or.inl hpending
    · exact Or.inr ((h.2 hpending).imp_right And.right)
  obtain ⟨hchecked, hawake⟩ := @awake_checkPendingRequests _ now hdelete hwatched
  rw [perform] at hchecked hawake
  rw [perform, Command.exec_bind]
  rcases hexec : Command.exec (checkPendingRequests now) (queue.deleteInflight id) with
    ⟨error | value, after⟩
  · rw [hexec] at hchecked hawake
    exact ⟨hchecked.placed, hawake⟩
  · rw [hexec] at hchecked hawake
    exact hrest after ⟨hchecked.placed, hawake⟩
      fun ref hget hmem => hgone ref hget (hchecked.refs ref hmem)

/-- Handling a response keeps the queue fine. -/
theorem fine_fulfillRequest (h : Fine queue) (response : Fulfillment) :
    Fine (queue.perform (fulfillRequest now response)) := by
  rw [perform, fulfillRequest, Command.exec_bind, Command.exec_get]
  dsimp only
  rw [Command.exec_bind, Command.exec_modify]
  refine fine_checked h fun after hafter hgone => ?_
  rw [perform]
  cases hget : queue.inflight.get? response.correlationId with
  | none => exact hafter.emitRequestQueueEmpty
  | some ref =>
      dsimp only
      rw [Command.exec_bind]
      rcases completed_cases after ref (some response) with ⟨error, hexec⟩ | hexec
      · rw [hexec]
        exact hafter
      · rw [hexec]
        have hsettled : Fine (after.complete ref (some response)) :=
          hafter.settle (hgone ref hget) rfl
        exact hsettled.emitRequestQueueEmpty

/-- Emitting that the queue is empty keeps the requests. -/
theorem refs_emitRequestQueueEmpty : queue.emitRequestQueueEmpty.refs = queue.refs := by
  rw [refs, emitRequestQueueEmpty_pending, emitRequestQueueEmpty_inflight, refs]

/-- A timeout of a request in flight keeps the queue fine. -/
theorem fine_timeoutRequest (h : Fine queue) (hmem : ref ∈ queue.inflight.values) :
    Fine (queue.perform (timeoutRequest now ref)) := by
  obtain ⟨id, hget⟩ := InsertionMap.mem_values_iff.mp hmem
  have hid := (h.1.inflight id ref hget).1
  rw [perform, timeoutRequest, Command.exec_bind, Command.exec_get]
  dsimp only
  rw [Command.exec_bind, Command.exec_modify]
  refine fine_checked h fun after hafter hgone => ?_
  rw [perform, Command.exec_bind, Command.exec_modify]
  dsimp only
  rcases rejected_cases after.emitRequestQueueEmpty ref (timeoutError (queue.requests ref).entry)
    with ⟨error, hexec⟩ | hexec
  · rw [hexec]
    exact hafter.emitRequestQueueEmpty
  · rw [hexec]
    refine hafter.emitRequestQueueEmpty.settle ?_ rfl
    rw [refs_emitRequestQueueEmpty]
    exact hgone ref (hid ▸ hget)

/-- The requests that `rejectAll` has not come to can be rejected. -/
def Rejectable (rest : List Nat) (queue : RequestQueue) : Prop :=
  rest.Nodup ∧
    ∀ ref ∈ rest, (queue.requests ref).state = .pending ∨ (queue.requests ref).state = .sent

/-- One round of `rejectAll` rejects the first request and never throws. -/
theorem ensures_rejectNext (error : KafkaError) (id : Int) (ref : Nat) (rest : List Nat) :
    Ensures (Rejectable (ref :: rest))
      (do
        rejected ref error
        modify (deleteInflight id))
      (fun _ => Rejectable rest) (fun _ _ => False) := by
  intro queue ⟨hnodup, hstates⟩
  obtain ⟨hmem, hrest⟩ := List.nodup_cons.mp hnodup
  rw [Command.exec_bind, exec_rejected (hstates ref List.mem_cons_self)]
  refine ⟨hrest, fun other hother => ?_⟩
  have hne : other ≠ ref := fun heq => hmem (heq ▸ hother)
  show (Function.update queue.requests ref _ other).state = _ ∨
    (Function.update queue.requests ref _ other).state = _
  rw [Function.update_of_ne hne]
  exact hstates other (List.mem_cons_of_mem ref hother)

/-- `rejectAll` does not throw, and leaves nothing pending. -/
theorem fine_rejectAll (h : Placed queue) (error : KafkaError) :
    Fine (queue.perform (rejectAll error)) := by
  have hrejectable : Rejectable (queue.inflight.values ++ queue.pending) queue := by
    refine ⟨List.nodup_append_comm.mp h.nodup, fun ref hmem => ?_⟩
    rcases List.mem_append.mp hmem with hinflight | hpending
    · obtain ⟨id, hget⟩ := InsertionMap.mem_values_iff.mp hinflight
      exact (h.inflight id ref hget).2
    · exact Or.inl (h.pending ref hpending)
  have hloop := ensures_forM (fun ref rest => ensures_rejectNext error
    (queue.requests ref).correlationId ref rest) (queue.inflight.values ++ queue.pending) queue
    hrejectable
  rw [perform, rejectAll, Command.exec_bind, Command.exec_get]
  dsimp only
  rw [Command.exec_bind]
  rcases hexec : Command.exec ((queue.inflight.values ++ queue.pending).forM fun ref => do
    rejected ref error
    modify (deleteInflight (queue.requests ref).correlationId)) queue with ⟨error | value, after⟩
  · rw [hexec] at hloop
    exact hloop.elim
  · have hclear : Fine after.clear := by
      refine ⟨⟨List.nodup_nil, fun _ hmem => absurd hmem List.not_mem_nil, ?_,
        fun _ hmem => absurd hmem List.not_mem_nil⟩, awake_of_pending rfl⟩
      intro id ref hget
      cases hget
    exact hclear.emitRequestQueueEmpty

/-- The timer for pending requests fires. -/
theorem checkTimer_outcome (h : Placed queue) :
    Placed (queue.perform (checkTimer now)) ∧
      ((queue.perform (checkTimer now)).Awake ↔ queue.KeepsAwake (.checkTimer now)) := by
  have hcleared : Placed { queue with throttleCheckTimeoutId := none } := h.congr rfl rfl rfl rfl
  have hcheck := @checkPendingRequests_outcome _ now hcleared
  have hstrands : strands { queue with throttleCheckTimeoutId := none } now queue.inflight.keys
      queue.pending = queue.strands now queue.inflight.keys queue.pending :=
    strands_congr rfl fun _ _ => rfl
  rw [perform, checkTimer, Command.exec_bind, Command.exec_modify]
  dsimp only
  rcases hexec : Command.exec (checkPendingRequests now)
    { queue with throttleCheckTimeoutId := none } with ⟨error | value, after⟩
  · rw [hexec] at hcheck
    obtain ⟨⟨hchecked, hinflight, htimer⟩, hpending⟩ := hcheck
    refine ⟨hchecked.placed, ?_⟩
    have hinterval : after.requestTimeoutInterval = queue.requestTimeoutInterval :=
      hchecked.interval
    rw [KeepsAwake, ← hstrands, ← hpending, Awake, htimer, hinterval]
    simp only [Option.isSome_none, Bool.false_eq_true, false_or, ne_eq, hinflight,
      not_false_eq_true, true_and]
    rw [← or_iff_not_imp_left, or_comm]
  · rw [hexec] at hcheck
    obtain ⟨hchecked, htimer, hnone⟩ := hcheck
    refine ⟨hchecked.placed, fun _ => Or.inr ?_, fun _ => awake_of_timer htimer⟩
    rw [← hstrands]
    exact hnone

variable {pushedRequest : PushedRequest}

/-- A new request is in neither container. -/
theorem Placed.createSocketRequest (h : Placed queue) (now : Int) (pushedRequest : PushedRequest) :
    Placed (queue.createSocketRequest now pushedRequest) ∧
      queue.created ∉ (queue.createSocketRequest now pushedRequest).refs ∧
        ((queue.createSocketRequest now pushedRequest).requests queue.created).state = .pending := by
  have hfresh : queue.created ∉ queue.refs := fun hmem => Nat.lt_irrefl _ (h.created _ hmem)
  have hold : ∀ ref ∈ queue.refs,
      (queue.createSocketRequest now pushedRequest).requests ref = queue.requests ref :=
    fun ref hmem => Function.update_of_ne (fun heq : ref = queue.created => hfresh (heq ▸ hmem)) ..
  refine ⟨⟨h.nodup, fun ref hmem => Nat.lt_succ_of_lt (h.created ref hmem), ?_, ?_⟩, hfresh, ?_⟩
  · intro id ref hget
    rw [hold ref (List.mem_append_right _ (InsertionMap.mem_values_iff.mpr ⟨id, hget⟩))]
    exact h.inflight id ref hget
  · intro ref hmem
    rw [hold ref (List.mem_append_left _ hmem)]
    exact h.pending ref hmem
  · show (Function.update queue.requests queue.created _ queue.created).state = _
    rw [Function.update_self]

/-- A new request becomes the last pending one. -/
theorem Placed.enqueue (h : Placed queue) (hmem : ref ∉ queue.refs) (hcreated : ref < queue.created)
    (hstate : (queue.requests ref).state = .pending) :
    Placed (queue.setPending (queue.pending ++ [ref])) := by
  have hperm : (queue.setPending (queue.pending ++ [ref])).refs.Perm (ref :: queue.refs) := by
    show (queue.pending ++ [ref] ++ queue.inflight.values).Perm _
    rw [List.append_assoc]
    exact List.perm_middle
  refine ⟨hperm.nodup_iff.mpr (List.nodup_cons.mpr ⟨hmem, h.nodup⟩), ?_, h.inflight, ?_⟩
  · intro other hother
    rcases List.mem_cons.mp (hperm.subset hother) with heq | hold
    · exact heq ▸ hcreated
    · exact h.created other hold
  · intro other hother
    rcases List.mem_append.mp hother with hold | hnew
    · exact h.pending other hold
    · exact List.mem_singleton.mp hnew ▸ hstate

/-- A request that is put among the inflight ones wakes nothing up, and takes no wake-up away. -/
theorem Awake.launch (h : queue.Awake) : (queue.launch ref).Awake := by
  intro hpending
  refine (h hpending).imp_right fun hwatched => ⟨?_, hwatched.2⟩
  have hget : (queue.launch ref).inflight.get? (queue.requests ref).correlationId = some ref :=
    InsertionMap.get?_set_self ..
  exact List.ne_nil_of_mem (InsertionMap.mem_entries_iff.mpr hget)

/-- Dispatching a request with a free correlation id keeps the queue awake. -/
theorem Awake.dispatch (h : queue.Awake)
    (hfree : queue.inflight.has (queue.requests ref).correlationId = false) :
    (queue.dispatch now ref).Awake := by
  unfold RequestQueue.dispatch
  split
  · exact h.launch.congr rfl rfl rfl rfl
  · refine fun hpending => (h hpending).imp_right fun hwatched => ⟨?_, hwatched.2⟩
    show ((queue.inflight.set (queue.requests ref).correlationId ref).delete
      (queue.requests ref).correlationId).entries ≠ []
    rw [InsertionMap.entries_delete_set hfree]
    exact hwatched.1

/-- A push keeps the queue fine. -/
theorem fine_push (h : Fine queue) (hstep : step queue (.push now pushedRequest) = some next) :
    Fine next := by
  obtain ⟨hplaced, hfresh, hstate⟩ := h.1.createSocketRequest now pushedRequest
  have hcreated : queue.created < (queue.createSocketRequest now pushedRequest).created :=
    Nat.lt_succ_self _
  have hawake : (queue.createSocketRequest now pushedRequest).Awake := h.2.congr rfl rfl rfl rfl
  rw [step] at hstep
  rcases push_cases queue now pushedRequest with ⟨-, hexec⟩ | ⟨-, hexec⟩
  · cases hfree : (queue.createSocketRequest now pushedRequest).inflight.has
      ((queue.createSocketRequest now pushedRequest).requests queue.created).correlationId with
    | true =>
        obtain ⟨error, hsend⟩ := @exec_sendSocketRequest_taken _ now _ hstate hfree
        rw [hexec, hsend] at hstep
        cases hstep
        exact ⟨hplaced.congr rfl rfl rfl rfl, hawake.congr rfl rfl rfl rfl⟩
    | false =>
        rw [hexec, exec_sendSocketRequest hstate hfree] at hstep
        cases herror : ((queue.createSocketRequest now pushedRequest).requests
          queue.created).sendError with
        | some error =>
            rw [herror] at hstep
            cases hstep
            exact ⟨(hplaced.launch hfresh hcreated hstate hfree).congr rfl rfl rfl rfl,
              hawake.launch.congr rfl rfl rfl rfl⟩
        | none =>
            rw [herror] at hstep
            cases hstep
            exact ⟨hplaced.dispatch hfresh hcreated hstate hfree, hawake.dispatch hfree⟩
  · rw [hexec] at hstep
    cases hstep
    refine Fine.emitRequestQueueEmpty ?_
    have henqueue := hplaced.enqueue hfresh hcreated hstate
    unfold scheduleCheckPendingRequests
    split
    · next htimer => exact ⟨henqueue, awake_of_timer (htimer ▸ rfl)⟩
    · exact ⟨henqueue.congr rfl rfl rfl rfl, awake_of_timer rfl⟩

/-- An event keeps a queue awake exactly if it leaves no pending requests behind. -/
theorem fine_step {event : Event} (h : Fine queue) (hstep : step queue event = some next) :
    Placed next ∧ (next.Awake ↔ queue.KeepsAwake event) := by
  -- most events keep the queue awake in any case
  have hkept : ∀ {event : Event} {after : RequestQueue}, queue.KeepsAwake event → Fine after →
      Placed after ∧ (after.Awake ↔ queue.KeepsAwake event) :=
    fun hkeeps hfine => ⟨hfine.1, fun _ => hkeeps, fun _ => hfine.2⟩
  cases event with
  | push now pushedRequest => exact hkept trivial (fine_push h hstep)
  | fulfillRequest now response =>
      cases hstep
      exact hkept trivial (fine_fulfillRequest h response)
  | timeoutRequest now ref =>
      obtain ⟨⟨-, hmem, -⟩, hnext⟩ := Option.ite_none_right_eq_some.mp hstep
      cases hnext
      exact hkept trivial (fine_timeoutRequest h hmem)
  | rejectAll error =>
      cases hstep
      exact hkept trivial (fine_rejectAll h.1 error)
  | checkTimer now =>
      obtain ⟨-, hnext⟩ := Option.ite_none_right_eq_some.mp hstep
      cases hnext
      exact checkTimer_outcome h.1
  | maybeThrottle now time =>
      cases hstep
      refine hkept trivial ?_
      unfold RequestQueue.maybeThrottle
      split
      · split
        · exact ⟨h.1.congr rfl rfl rfl rfl, h.2.congr rfl rfl rfl rfl⟩
        · exact h
      · exact h
  | scheduleRequestTimeoutCheck =>
      cases hstep
      unfold RequestQueue.scheduleRequestTimeoutCheck
      split
      · next henforce =>
          refine ⟨h.1.congr rfl rfl rfl rfl, ?_⟩
          show (queue.pending ≠ [] → false = true ∨ (queue.inflight.entries ≠ [] ∧ true = true)) ↔
            (queue.enforceRequestTimeout = true → queue.pending = [] ∨ queue.inflight.entries ≠ [])
          simp [henforce, or_iff_not_imp_left]
      · next henforce =>
          have hkeeps : queue.KeepsAwake .scheduleRequestTimeoutCheck :=
            fun henforced => absurd henforced henforce
          exact hkept hkeeps h
  | destroy =>
      cases hstep
      refine ⟨h.1.congr rfl rfl rfl rfl, ?_⟩
      show (queue.pending ≠ [] → false = true ∨ (queue.inflight.entries ≠ [] ∧ false = true)) ↔
        queue.pending = []
      simp
  | waitForPendingRequests waiter =>
      cases hstep
      refine hkept trivial ?_
      unfold RequestQueue.waitForPendingRequests
      split <;> exact ⟨h.1.congr rfl rfl rfl rfl, h.2.congr rfl rfl rfl rfl⟩

/-! ## Runs -/

/-- A new queue is fine. -/
theorem fine_new (maxInFlightRequests : Option Nat) (requestTimeout : Int) (enforce : Bool) :
    Fine (new maxInFlightRequests requestTimeout enforce) :=
  ⟨⟨List.nodup_nil, nofun, nofun, nofun⟩, awake_of_pending rfl⟩

/-- A queue is awake in every state to which the events lead. -/
def StaysAwake (start : RequestQueue) (events : List Event) : Prop :=
  ∀ before state, before <+: events → run step start before = some state → state.Awake

/-- No event leaves pending requests behind. -/
def LeavesNothing (start : RequestQueue) (events : List Event) : Prop :=
  ∀ before event state next, before ++ [event] <+: events →
    run step start before = some state → step state event = some next → state.KeepsAwake event

/-- A queue whose events leave it awake is as it should be after them. -/
theorem fine_of_awake {start state : RequestQueue} {events before : List Event}
    (hstart : Fine start)
    (hawake : ∀ before event state next, before ++ [event] <+: events →
      run step start before = some state → step state event = some next → Fine state → next.Awake)
    (hbefore : before <+: events) (hrun : run step start before = some state) : Fine state := by
  induction before using List.reverseRecOn generalizing state with
  | nil =>
      cases hrun
      exact hstart
  | append_singleton before event ih =>
      obtain ⟨last, hlast, hstep⟩ := run_concat_eq_some.mp hrun
      have hfine := ih ((List.prefix_append before [event]).trans hbefore) hlast
      exact ⟨(fine_step hfine hstep).1, hawake before event last state hbefore hlast hstep hfine⟩

/-- A new queue stays awake through any events exactly if none of them leaves pending requests
behind. -/
theorem awake_iff (maxInFlightRequests : Option Nat) (requestTimeout : Int)
    (enforceRequestTimeout : Bool) (events : List Event) :
    StaysAwake (new maxInFlightRequests requestTimeout enforceRequestTimeout) events ↔
      LeavesNothing (new maxInFlightRequests requestTimeout enforceRequestTimeout) events := by
  have hnew := fine_new maxInFlightRequests requestTimeout enforceRequestTimeout
  constructor
  · intro hawake before event state next hprefix hrun hstep
    have hnext := hawake _ next hprefix (run_concat_eq_some.mpr ⟨state, hrun, hstep⟩)
    have hfine : Fine state := fine_of_awake hnew
      (fun before event state next hprefix hrun hstep _ =>
        hawake _ next hprefix (run_concat_eq_some.mpr ⟨state, hrun, hstep⟩))
      ((List.prefix_append before [event]).trans hprefix) hrun
    exact (fine_step hfine hstep).2.mp hnext
  · intro hleaves before state hbefore hrun
    have hfine : Fine state := fine_of_awake hnew
      (fun before event state next hprefix hrun hstep hfine =>
        (fine_step hfine hstep).2.mpr (hleaves before event state next hprefix hrun hstep))
      hbefore hrun
    exact hfine.2

end RequestQueue

namespace Connection

/-- The broker throttles the client; a call of `send` that comes back from `createRequest` while a
disconnect is about to go on makes its request pending. -/
def throttledPush : List Event :=
  startEvents ++ [.maybeThrottle 1 (some 1000), .disconnect, .resumeEncoded 2 0 (.ok none),
    .resumeDisconnect 0]

/-- The disconnect clears the timer of the pending request. -/
theorem asleep_throttledPush : ∃ connection, run step plain throttledPush = some connection ∧
    connection.requestQueue.pending = [0] ∧ ¬ connection.requestQueue.Awake := by
  have hfields : (run step plain throttledPush).map (fun connection =>
      (connection.requestQueue.pending, connection.requestQueue.throttleCheckTimeoutId,
        connection.requestQueue.requestTimeoutInterval)) = some ([0], none, false) := by decide
  obtain ⟨connection, hrun, heq⟩ := Option.map_eq_some_iff.mp hfields
  simp only [Prod.mk.injEq] at heq
  obtain ⟨hpending, htimer, hinterval⟩ := heq
  refine ⟨connection, hrun, hpending, fun hawake => ?_⟩
  rcases hawake (by rw [hpending]; exact List.cons_ne_nil _ _) with hsome | ⟨-, hactive⟩
  · rw [htimer] at hsome
    cases hsome
  · rw [hinterval] at hactive
    cases hactive

end Connection

end KafkaJs.Network
