import KafkaJs.Producer.EosManager.Recovery
import KafkaJs.Producer.Transaction

/-!
# Isolation of transactions

A message handed to a transaction object belongs to that transaction: no request for it may go
out once the transaction's `EndTxn` was sent or a later transaction began. The code does not
enforce this, since the guard of the object is evaluated when `send` is called and the tasks of
the call only look at the shared manager. `isolation` shows that it holds in every run in which a
transaction is ended only once its calls and all their tasks are settled, and `send` is called
only on the object of the transaction that goes on.
-/

namespace KafkaJs.Producer.Transaction

open Data Cluster Execution Utils

variable {μ σ : Type}

/-! ## The property -/

/-- A request for messages of the given transaction object. -/
def Observation.Carries (transaction : Nat) : Observation μ → Prop
  | .addPartitionsToTxn owner _ | .produce owner _ => owner = transaction
  | .began _ | .endTxn _ => False

/-- From here on the given transaction is over: its `EndTxn` is sent, or a later one begins. -/
def Observation.Closes (transaction : Nat) : Observation μ → Prop
  | .endTxn ended => ended = transaction
  | .began next => transaction < next
  | .addPartitionsToTxn _ _ | .produce _ _ => False

/-- No request for a transaction's messages follows the end of that transaction. -/
def Isolated (trace : List (Observation μ)) : Prop :=
  trace.Pairwise fun earlier later =>
    ∀ transaction, later.Carries transaction → ¬ earlier.Closes transaction

/-! ## The condition -/

/-- The call settled and none of its tasks is left. -/
def Send.Settled (send : Send μ σ) : Prop :=
  (match send.call.phase with
    | .resolved _ | .rejected _ => True
    | .waiting _ | .sending _ => False) ∧ send.call.inFlight = []

/-- `send` is called on the object of the transaction that goes on, and the transaction is ended
only when its calls are settled. -/
def Orderly (state : State μ σ) : Event μ → Prop
  | .send transaction _ => transaction = state.eos.transaction
  | .commit _ | .abort _ =>
      ∀ send ∈ state.sends, send.transaction = state.eos.transaction → send.Settled
  | _ => True

/-- `Settled` is decidable by the phase and the requests in flight. -/
instance (send : Send μ σ) : Decidable send.Settled :=
  have : Decidable (match send.call.phase with
      | .resolved _ | .rejected _ => True
      | .waiting _ | .sending _ => False) :=
    match send.call.phase with
    | .resolved _ | .rejected _ => isTrue trivial
    | .waiting _ | .sending _ => isFalse id
  inferInstanceAs (Decidable (_ ∧ _))

/-- `Orderly` is decidable by the event and the calls in flight. -/
instance (state : State μ σ) (event : Event μ) : Decidable (Orderly state event) :=
  match event with
  | .send transaction _ => inferInstanceAs (Decidable (transaction = state.eos.transaction))
  | .commit _ | .abort _ =>
      inferInstanceAs (Decidable
        (∀ send ∈ state.sends, send.transaction = state.eos.transaction → send.Settled))
  | .transaction | .sendOffsets _ _ _ | .didEnd _ | .found _ | .applied _ | .answered _
  | .failed _ _ | .attempt _ _ _ | .attemptFails _ _ _ | .lockTimeout _ _ _ _
  | .register _ _ _ | .coordinatorFound _ _ | .partitionsAdded _ _ _
  | .registrationFails _ _ _ _ | .produce _ _ | .answer _ _ _ _ | .fail _ _ _ _ =>
      isTrue trivial

/-! ## What the manager does -/

/-- An event of the manager keeps the transaction, begins or ends it, or becomes ready for the
next one. -/
theorem eos_step {τ : Type} [DecidableEq τ] {state next : EosManager.State τ}
    {event : EosManager.Event τ} (hsound : EosManager.Sound state ∨ EosManager.Stuck state)
    (h : EosManager.step state event = some next) :
    (next.transaction = state.transaction ∧
      (next.manager.state = state.manager.state ∨ state.manager.state = .ready ∨
        (state.manager.state = .transacting ∧ next.manager.state ≠ .ready ∧
          (event = .commit ∨ event = .abort)))) ∨
    (next.transaction = state.transaction + 1 ∧ next.manager.state = .ready ∧
      (state.manager.state = .transacting → event = .commit ∨ event = .abort)) := by
  cases EosManager.step_cases h with
  | begun hready => exact Or.inl ⟨rfl, Or.inr (Or.inl hready)⟩
  | called manager new hstate hnext _ _ _ _ =>
      exact Or.inl ⟨rfl, Or.inl (hnext.trans hstate.symm)⟩
  | endedAtOnce commit hevent _ _ =>
      refine Or.inr ⟨rfl, rfl, fun _ => ?_⟩
      cases commit <;> simp [hevent]
  | ending commit hevent hstate _ =>
      refine Or.inl ⟨rfl, Or.inr (Or.inr ⟨hstate, ?_, ?_⟩)⟩
      · cases commit <;> simp [EosManager.endingState]
      · cases commit <;> simp [hevent]
  | sent pending _ _ => exact Or.inl ⟨by simp, by simp⟩
  | applied pending _ _ => exact Or.inl ⟨by simp, by simp⟩
  | failed pending _ => exact Or.inl ⟨rfl, Or.inl rfl⟩
  | retried pending _ _ => exact Or.inl ⟨rfl, Or.inl rfl⟩
  | @resumed index pending hpending _ =>
      cases hcall : pending.call with
      | addPartitions collected =>
          refine Or.inl ⟨by simp [EosManager.State.resume, hcall], Or.inl ?_⟩
          simp [EosManager.State.resume, hcall, EosManager.recordPartitions_frame]
      | sendOffsets => exact Or.inl ⟨by simp [EosManager.State.resume, hcall],
          Or.inl (by simp [EosManager.State.resume, hcall])⟩
      | txnOffsetCommit => exact Or.inl ⟨by simp [EosManager.State.resume, hcall],
          Or.inl (by simp [EosManager.State.resume, hcall])⟩
      | endTxn commit =>
          have hend : pending.isEnd = true := by simp [EosManager.Pending.isEnd, hcall]
          have hstate := (hsound.resolve_right fun hstuck => by
            simp [hstuck.not_isEnd hpending] at hend).stuck_eraseIdx hpending hend |>.1
          refine Or.inr ?_
          rcases hstate with hstate | hstate <;>
            simp_all [EosManager.State.resume, EosManager.State.becomeReady,
              EosManager.Manager.transitionTo, EosManager.validTransitions]

/-- The `EndTxn` requests in flight after an event were in flight before, or belong to the
current transaction. -/
theorem eos_step_endTxn {τ : Type} [DecidableEq τ] {state next : EosManager.State τ}
    {event : EosManager.Event τ} (h : EosManager.step state event = some next)
    {pending : EosManager.Pending τ} (hmem : pending ∈ next.inFlight)
    (hend : pending.isEnd = true) :
    (∃ old ∈ state.inFlight, old.isEnd = true ∧ old.transaction = pending.transaction) ∨
      pending.transaction = state.transaction := by
  -- whatever moves a call on in its place keeps which calls are in flight, and their transactions
  have hset : ∀ {index old stage}, state.inFlight[index]? = some old →
      pending ∈ state.inFlight.set index { old with stage := stage } →
      ∃ old ∈ state.inFlight, old.isEnd = true ∧ old.transaction = pending.transaction := by
    intro index old stage hold hpending
    rcases List.mem_or_eq_of_mem_set hpending with hsame | rfl
    · exact ⟨pending, hsame, hend, rfl⟩
    · exact ⟨old, List.mem_of_getElem? hold, hend, rfl⟩
  cases EosManager.step_cases h with
  | begun _ => exact Or.inl ⟨pending, hmem, hend, rfl⟩
  -- only a new call can be one that was not in flight, and it belongs to the current transaction
  | called manager new _ _ _ hnew _ _ =>
      rcases List.mem_append.mp hmem with hold | hpending
      · exact Or.inl ⟨pending, hold, hend, rfl⟩
      · exact Or.inr (hnew pending hpending).2.2
  | endedAtOnce commit _ _ _ => exact Or.inl ⟨pending, hmem, hend, rfl⟩
  | ending commit _ _ _ =>
      rcases List.mem_append.mp hmem with hold | hpending
      · exact Or.inl ⟨pending, hold, hend, rfl⟩
      · cases List.mem_singleton.mp hpending
        exact Or.inr rfl
  | sent old hold _ =>
      rw [EosManager.observeSent_inFlight] at hmem
      exact Or.inl (hset hold hmem)
  | applied old hold _ =>
      rw [EosManager.observeApplied_inFlight] at hmem
      exact Or.inl (hset hold hmem)
  | failed old _ => exact Or.inl ⟨pending, List.mem_of_mem_eraseIdx hmem, hend, rfl⟩
  | retried old hold _ => exact Or.inl (hset hold hmem)
  | @resumed index old hold _ =>
      refine Or.inl ?_
      cases hcall : old.call with
      | addPartitions collected =>
          simp only [EosManager.State.resume, hcall] at hmem
          exact ⟨pending, List.mem_of_mem_eraseIdx hmem, hend, rfl⟩
      | sendOffsets =>
          simp only [EosManager.State.resume, hcall] at hmem
          rcases List.mem_or_eq_of_mem_set hmem with hsame | rfl
          · exact ⟨pending, hsame, hend, rfl⟩
          · simp [EosManager.Pending.isEnd] at hend
      | txnOffsetCommit =>
          simp only [EosManager.State.resume, hcall] at hmem
          exact ⟨pending, List.mem_of_mem_eraseIdx hmem, hend, rfl⟩
      | endTxn commit =>
          simp only [EosManager.State.resume, hcall, EosManager.State.becomeReady] at hmem
          split at hmem <;> exact ⟨pending, List.mem_of_mem_eraseIdx hmem, hend, rfl⟩

/-! ## What the calls and their tasks do -/

/-- The work of a call that is not settled: the manager may record partitions but keeps its
state, and the requests that go out are for the call's own transaction. -/
structure Works (state next : State μ σ) (number : Nat) (send : Send μ σ) : Prop where
  found : state.sends[number]? = some send
  unsettled : ¬ send.Settled
  managerState : next.eos.manager.state = state.eos.manager.state
  inFlight : next.eos.inFlight = state.eos.inFlight
  transaction : next.eos.transaction = state.eos.transaction
  sends : ∃ call, next.sends = state.sends.set number { send with call := call }
  trace : ∃ new, next.trace = state.trace ++ new ∧ ∀ observation ∈ new, ∀ transaction,
    (observation.Carries transaction → transaction = send.transaction) ∧
      ¬ observation.Closes transaction

/-- A settled call does nothing any more. -/
theorem step_settled {send : Send μ σ} (h : send.Settled) (partitioner : σ) (event : SendEvent) :
    Producer.step send.config { send.call with partitioner := partitioner } event = none := by
  obtain ⟨hphase, hnone⟩ := h
  cases event with
  | attemptFails error recovery => cases hcall : send.call.phase <;> simp_all [Producer.step]
  | attempt view recovery => cases hcall : send.call.phase <;> simp_all [Producer.step]
  | answer index answer recovery => simp [Producer.step, hnone]
  | fail index error recovery => simp [Producer.step, hnone]
  | lockFails index error recovery => simp [Producer.step, hnone]

/-- An event of a call. -/
theorem stepSend_works {state next : State μ σ} {number : Nat} {event : SendEvent}
    (h : state.stepSend number event = some next) : ∃ send, Works state next number send := by
  unfold State.stepSend at h
  split at h
  · cases h
  · next send hsend =>
      obtain ⟨call, hstep, rfl⟩ := Option.map_eq_some_iff.mp h
      refine ⟨send, hsend, fun hsettled => ?_, rfl, rfl, rfl, ⟨call, rfl⟩, ⟨[], by simp, by simp⟩⟩
      rw [step_settled hsettled] at hstep
      cases hstep

/-- Locks and stages are not part of what a call's work is about. -/
theorem Works.congr {state next other : State μ σ} {number : Nat} {send : Send μ σ}
    (h : Works state next number send) (heos : other.eos = next.eos)
    (hsends : other.sends = next.sends) (htrace : other.trace = next.trace) :
    Works state other number send := by
  refine ⟨h.found, h.unsettled, ?_, ?_, ?_, ?_, ?_⟩
  · rw [heos]
    exact h.managerState
  · rw [heos]
    exact h.inFlight
  · rw [heos]
    exact h.transaction
  · rw [hsends]
    exact h.sends
  · rw [htrace]
    exact h.trace

/-- Acquiring the locks of brokers changes neither the manager nor the sends nor the trace. -/
theorem acquire_frame (number : Nat) (requests : List (Request μ)) (state : State μ σ) :
    let next := requests.foldl (State.acquireBrokerLock number) state
    next.eos = state.eos ∧ next.sends = state.sends ∧ next.trace = state.trace := by
  induction requests generalizing state with
  | nil => exact ⟨rfl, rfl, rfl⟩
  | cons request requests ih => exact ih (state.acquireBrokerLock number request)

/-- The end of a task. -/
theorem endTask_works {state next : State μ σ} {number : Nat} {request : Request μ}
    {event : SendEvent} (h : state.endTask number request event = some next) :
    ∃ send, Works state next number send := by
  obtain ⟨middle, hstep, rfl⟩ := Option.map_eq_some_iff.mp h
  obtain ⟨send, hworks⟩ := stepSend_works hstep
  exact ⟨send, hworks.congr rfl rfl rfl⟩

/-- A task that is found belongs to a call that is not settled. -/
theorem task_some {state : State μ σ} {number index : Nat} {send : Send μ σ}
    {request : Request μ} (h : state.task number index = some (send, request)) :
    state.sends[number]? = some send ∧ ¬ send.Settled := by
  unfold State.task at h
  split at h
  · cases h
  · next found hfound =>
      obtain ⟨other, hother, hpair⟩ := Option.map_eq_some_iff.mp h
      cases hpair
      refine ⟨hfound, fun hsettled => ?_⟩
      rw [hsettled.2] at hother
      cases hother

/-- A task moves on while its call stays what it is: the manager keeps its state, and the task
may send a request for its own transaction. -/
theorem works_task {state next : State μ σ} {number index : Nat} {send : Send μ σ}
    {request : Request μ} (h : state.task number index = some (send, request))
    (hmanager : next.eos.manager.state = state.eos.manager.state)
    (hinFlight : next.eos.inFlight = state.eos.inFlight)
    (htransaction : next.eos.transaction = state.eos.transaction)
    (hsends : next.sends = state.sends)
    (htrace : ∃ new, next.trace = state.trace ++ new ∧ ∀ observation ∈ new, ∀ transaction,
      (observation.Carries transaction → transaction = send.transaction) ∧
        ¬ observation.Closes transaction) :
    Works state next number send := by
  obtain ⟨hfound, hunsettled⟩ := task_some h
  refine ⟨hfound, hunsettled, hmanager, hinFlight, htransaction, ⟨send.call, ?_⟩, htrace⟩
  obtain ⟨hlt, hget⟩ := List.getElem?_eq_some_iff.mp hfound
  rw [hsends, ← hget]
  exact (List.set_getElem_self hlt).symm

/-- The work of a call after the manager recorded partitions. -/
theorem Works.of_recorded {state next : State μ σ} {number : Nat} {send : Send μ σ}
    {manager : EosManager.Manager String} (hmanager : manager.state = state.eos.manager.state)
    (h : Works { state with eos := { state.eos with manager := manager } } next number send) :
    Works state next number send :=
  ⟨h.found, h.unsettled, h.managerState.trans hmanager, h.inFlight, h.transaction, h.sends,
    h.trace⟩

/-- The events of calls and tasks. -/
def Event.IsWork : Event μ → Prop
  | .transaction | .send _ _ | .sendOffsets _ _ _ | .commit _ | .abort _ | .didEnd _
  | .found _ | .applied _ | .answered _ | .failed _ _ => False
  | .attempt _ _ _ | .attemptFails _ _ _ | .lockTimeout _ _ _ _ | .register _ _ _
  | .coordinatorFound _ _ | .partitionsAdded _ _ _ | .registrationFails _ _ _ _
  | .produce _ _ | .answer _ _ _ _ | .fail _ _ _ _ => True

/-- A task that takes a step is there. -/
theorem stepTask_some {state next : State μ σ} {number index : Nat}
    {act : Send μ σ → Request μ → TaskStage → Option (State μ σ)}
    (h : state.stepTask number index act = some next) :
    ∃ send request, state.task number index = some (send, request) ∧
      act send request (state.stage (taskOf number request)) = some next := by
  unfold State.stepTask at h
  split at h
  · cases h
  · next send request htask => exact ⟨send, request, htask, h⟩

/-- `addPartitionsToTransaction` is work of its call. -/
theorem addPartitionsToTransaction_works {state next : State μ σ} {number index : Nat}
    {send : Send μ σ} {request : Request μ} {recovery : Recovery}
    (htask : state.task number index = some (send, request))
    (h : state.addPartitionsToTransaction number index request recovery = some next) :
    ∃ send, Works state next number send := by
  unfold State.addPartitionsToTransaction at h
  split at h
  · cases h
    refine ⟨send, works_task htask ?_ rfl rfl rfl ⟨[], by simp [State.moveTo], by simp⟩⟩
    exact (EosManager.collect_frame state.eos.manager _).1
  · exact endTask_works h

/-- Recording the added partitions is work of its call. -/
theorem recordPartitions_works {state next : State μ σ} {number index : Nat}
    {send : Send μ σ} {request : Request μ} {collected : InsertionMap String (List Int)}
    {recovery : Recovery} (htask : state.task number index = some (send, request))
    (h : state.recordPartitions number index request collected recovery = some next) :
    ∃ send, Works state next number send := by
  have hframe := (EosManager.recordPartitions_frame state.eos.manager
    (EosManager.collectedPartitions collected)).1
  unfold State.recordPartitions at h
  dsimp only at h
  split at h
  · cases h
    exact ⟨send, works_task htask hframe rfl rfl rfl ⟨[], by simp [State.moveTo], by simp⟩⟩
  · obtain ⟨worker, hworks⟩ := endTask_works h
    exact ⟨worker, hworks.of_recorded hframe⟩

/-- Every event of a call or a task is work of a call that is not settled. -/
theorem step_works {config : Config μ σ} {state next : State μ σ} {event : Event μ}
    (h : step config state event = some next) (hwork : event.IsWork) :
    ∃ number send, Works state next number send := by
  cases event with
  | transaction | send _ _ | sendOffsets _ _ _ | commit _ | abort _ | didEnd _
  | found _ | applied _ | answered _ | failed _ _ => exact absurd hwork id
  -- planning and taking the locks touch neither the manager nor what other calls have sent
  | attempt number view recovery =>
      obtain ⟨middle, hstep, rfl⟩ := Option.map_eq_some_iff.mp h
      obtain ⟨send, hworks⟩ := stepSend_works hstep
      obtain ⟨heos, hsends, htrace⟩ :=
        acquire_frame number (state.newRequests middle number) middle
      exact ⟨number, send, hworks.congr heos hsends htrace⟩
  | attemptFails number error recovery => exact ⟨number, stepSend_works h⟩
  | lockTimeout number index error recovery =>
      simp only [step] at h
      obtain ⟨send, request, htask, hact⟩ := stepTask_some h
      split at hact
      · obtain ⟨middle, hstep, rfl⟩ := Option.map_eq_some_iff.mp hact
        obtain ⟨worker, hworks⟩ := stepSend_works hstep
        exact ⟨number, worker, hworks.congr rfl rfl rfl⟩
      · cases hact
  | register number index recovery =>
      simp only [step] at h
      obtain ⟨send, request, htask, hact⟩ := stepTask_some h
      split at hact
      · exact ⟨number, addPartitionsToTransaction_works htask hact⟩
      · cases hact
  -- the request goes out for the transaction in which the call was made
  | coordinatorFound number index =>
      simp only [step] at h
      obtain ⟨send, request, htask, hact⟩ := stepTask_some h
      split at hact
      · cases hact
        refine ⟨number, send, works_task htask rfl rfl rfl rfl ⟨[_], rfl, ?_⟩⟩
        intro observation hmem transaction
        cases List.mem_singleton.mp hmem
        exact ⟨Eq.symm, id⟩
      · cases hact
  | partitionsAdded number index recovery =>
      simp only [step] at h
      obtain ⟨send, request, htask, hact⟩ := stepTask_some h
      split at hact
      · exact ⟨number, recordPartitions_works htask hact⟩
      · cases hact
  | registrationFails number index error recovery =>
      simp only [step] at h
      obtain ⟨send, request, htask, hact⟩ := stepTask_some h
      split at hact
      · exact ⟨number, endTask_works hact⟩
      · exact ⟨number, endTask_works hact⟩
      · cases hact
  | produce number index =>
      simp only [step] at h
      obtain ⟨send, request, htask, hact⟩ := stepTask_some h
      split at hact
      · cases hact
        refine ⟨number, send, works_task htask rfl rfl rfl rfl ⟨[_], rfl, ?_⟩⟩
        intro observation hmem transaction
        cases List.mem_singleton.mp hmem
        exact ⟨Eq.symm, id⟩
      · cases hact
  | answer number index answer recovery =>
      simp only [step] at h
      obtain ⟨send, request, htask, hact⟩ := stepTask_some h
      split at hact
      · exact ⟨number, endTask_works hact⟩
      · cases hact
  | fail number index error recovery =>
      simp only [step] at h
      obtain ⟨send, request, htask, hact⟩ := stepTask_some h
      split at hact
      · exact ⟨number, endTask_works hact⟩
      · cases hact

/-! ## The invariant -/

/-- The given transaction is over, or being ended. -/
def Over (state : State μ σ) (transaction : Nat) : Prop :=
  transaction < state.eos.transaction ∨
    transaction = state.eos.transaction ∧ state.eos.manager.state ≠ .transacting ∧
      state.eos.manager.state ≠ .ready

/-- A transaction that is over stays over. -/
theorem Over.manage {state next : State μ σ} {transaction : Nat}
    {event : EosManager.Event String} (h : Over state transaction)
    (hsound : EosManager.Sound state.eos ∨ EosManager.Stuck state.eos)
    (hstep : EosManager.step state.eos event = some next.eos) : Over next transaction := by
  rcases eos_step hsound hstep with ⟨heq, hsame | hready | ⟨hlive, -, -⟩⟩ | ⟨heq, -, -⟩
  · rwa [Over, heq, hsame]
  · refine Or.inl ?_
    rcases h with hlt | ⟨-, -, hnot⟩
    · omega
    · exact absurd hready hnot
  · refine Or.inl ?_
    rcases h with hlt | ⟨-, hnot, -⟩
    · omega
    · exact absurd hlive hnot
  · refine Or.inl ?_
    rcases h with hlt | ⟨hcurrent, -, -⟩ <;> omega

/-- Only the transaction that goes on has calls that are not settled. -/
structure Separated (state : State μ σ) : Prop where
  sound : EosManager.Sound state.eos ∨ EosManager.Stuck state.eos
  ends : ∀ pending ∈ state.eos.inFlight, pending.isEnd = true →
    pending.transaction ≤ state.eos.transaction
  owners : ∀ send ∈ state.sends, send.transaction ≤ state.eos.transaction
  settled : ∀ send ∈ state.sends, send.transaction < state.eos.transaction ∨
    state.eos.manager.state ≠ .transacting → send.Settled
  closed : ∀ observation ∈ state.trace, ∀ transaction, observation.Closes transaction →
    Over state transaction
  isolated : Isolated state.trace

variable {state next : State μ σ}

/-- Before any send nothing can be mixed. -/
theorem separated_initial (partitioner : σ) :
    Separated (State.initial partitioner : State μ σ) := by
  refine ⟨Or.inl (Or.inl ⟨Or.inl rfl, rfl⟩), ?_, ?_, ?_, ?_, List.Pairwise.nil⟩ <;>
    simp [State.initial, EosManager.State.initial]

/-- Extending the trace by observations that carry nothing. -/
theorem Isolated.append {trace new : List (Observation μ)} (h : Isolated trace)
    (hnew : ∀ later ∈ new, ∀ transaction, later.Carries transaction →
      (∀ earlier ∈ trace, ¬ earlier.Closes transaction) ∧
        ∀ earlier ∈ new, ¬ earlier.Closes transaction) :
    Isolated (trace ++ new) := by
  refine List.pairwise_append.mpr ⟨h, ?_, ?_⟩
  · refine List.pairwise_of_forall_mem_list ?_
    intro earlier hearlier later hlater transaction hcarries
    exact (hnew later hlater transaction hcarries).2 earlier hearlier
  · intro earlier hearlier later hlater transaction hcarries
    exact (hnew later hlater transaction hcarries).1 earlier hearlier

/-- The work of a call keeps the invariant: the call belongs to the transaction that goes on. -/
theorem Separated.works (h : Separated state) {number : Nat} {send : Send μ σ}
    (hworks : Works state next number send) : Separated next := by
  have hmem := List.mem_of_getElem? hworks.found
  -- a call works only while it is not settled, so its transaction is the current one and goes on
  have hlive : state.eos.manager.state = .transacting := by
    by_contra hnot
    exact hworks.unsettled (h.settled send hmem (Or.inr hnot))
  have hcurrent : send.transaction = state.eos.transaction := by
    by_contra hnot
    have hle := h.owners send hmem
    exact hworks.unsettled (h.settled send hmem (Or.inl (by omega)))
  have hover : ∀ {transaction}, Over state transaction → Over next transaction := by
    intro transaction hover
    rwa [Over, hworks.transaction, hworks.managerState]
  obtain ⟨call, hsends⟩ := hworks.sends
  obtain ⟨new, htrace, hnew⟩ := hworks.trace
  refine ⟨?_, ?_, ?_, ?_, ?_, ?_⟩
  · obtain ⟨hsound, hstuck⟩ := EosManager.sound_congr hworks.managerState
      (show EosManager.endings next.eos = EosManager.endings state.eos by
        rw [EosManager.endings, EosManager.endings, hworks.inFlight])
    exact h.sound.imp hsound.mpr hstuck.mpr
  · rw [hworks.inFlight, hworks.transaction]
    exact h.ends
  · rw [hsends, hworks.transaction]
    intro other hother
    rcases List.mem_or_eq_of_mem_set hother with hold | rfl
    · exact h.owners other hold
    · exact h.owners send hmem
  · rw [hsends, hworks.transaction, hworks.managerState]
    intro other hother hpast
    rcases List.mem_or_eq_of_mem_set hother with hold | rfl
    · exact h.settled other hold hpast
    · rcases hpast with hlt | hnot
      · exact absurd hcurrent hlt.ne
      · exact absurd hlive hnot
  · rw [htrace]
    intro observation hobservation transaction hcloses
    rcases List.mem_append.mp hobservation with hold | hobserved
    · exact hover (h.closed observation hold transaction hcloses)
    · exact absurd hcloses (hnew observation hobserved transaction).2
  · rw [htrace]
    refine h.isolated.append fun later hlater transaction hcarries => ⟨?_, ?_⟩
    -- what closes a transaction was observed when it was over
    · intro earlier hearlier hcloses
      have hown := (hnew later hlater transaction).1 hcarries
      rcases h.closed earlier hearlier transaction hcloses with hlt | ⟨-, hnot, -⟩
      · omega
      · exact hnot hlive
    · intro earlier hearlier
      exact (hnew earlier hearlier transaction).2

/-- An event of the manager keeps the invariant if the calls are settled when it ends the
transaction. -/
theorem Separated.manage (h : Separated state) {event : EosManager.Event String}
    (hstep : EosManager.step state.eos event = some next.eos) (hsends : next.sends = state.sends)
    (htrace : next.trace = state.trace)
    (hsettled : event = .commit ∨ event = .abort →
      ∀ send ∈ state.sends, send.transaction = state.eos.transaction → send.Settled) :
    Separated next := by
  have hcases := eos_step h.sound hstep
  have hle : state.eos.transaction ≤ next.eos.transaction := by
    rcases hcases with ⟨heq, -⟩ | ⟨heq, -, -⟩ <;> omega
  -- calls of earlier transactions are settled already, those of this one by the condition
  have hall : (event = .commit ∨ event = .abort) → ∀ send ∈ state.sends, send.Settled := by
    intro hend send hmem
    rcases Nat.lt_or_eq_of_le (h.owners send hmem) with hlt | heq
    · exact h.settled send hmem (Or.inl hlt)
    · exact hsettled hend send hmem heq
  refine ⟨EosManager.sound_or_stuck_step h.sound hstep, ?_, ?_, ?_, ?_, ?_⟩
  · intro pending hmem hend
    rcases eos_step_endTxn hstep hmem hend with ⟨old, hold, holdEnd, heq⟩ | heq
    · have := h.ends old hold holdEnd
      omega
    · omega
  · rw [hsends]
    intro send hmem
    exact (h.owners send hmem).trans hle
  · rw [hsends]
    intro send hmem hpast
    by_cases hlive : state.eos.manager.state = .transacting
    · rcases hcases with ⟨heq, hsame | hready | ⟨-, -, hend⟩⟩ | ⟨-, -, hend⟩
      · rw [heq, hsame] at hpast
        exact h.settled send hmem hpast
      · simp [hlive] at hready
      · exact hall hend send hmem
      · exact hall (hend hlive) send hmem
    · exact h.settled send hmem (Or.inr hlive)
  · rw [htrace]
    intro observation hmem transaction hcloses
    exact (h.closed observation hmem transaction hcloses).manage h.sound hstep
  · rw [htrace]
    exact h.isolated

/-- Observing the end of a transaction that is over, or the start of the current one. -/
theorem Separated.observe (h : Separated state) {observation : Observation μ}
    (hcarries : ∀ transaction, ¬ observation.Carries transaction)
    (hover : ∀ transaction, observation.Closes transaction → Over state transaction)
    (heos : next.eos = state.eos) (hsends : next.sends = state.sends)
    (htrace : next.trace = state.trace ++ [observation]) : Separated next := by
  refine ⟨?_, ?_, ?_, ?_, ?_, ?_⟩
  · rw [heos]
    exact h.sound
  · rw [heos]
    exact h.ends
  · rw [heos, hsends]
    exact h.owners
  · rw [heos, hsends]
    exact h.settled
  · rw [htrace]
    intro other hmem transaction hcloses
    rw [Over, heos]
    rcases List.mem_append.mp hmem with hold | hnew
    · exact h.closed other hold transaction hcloses
    · cases List.mem_singleton.mp hnew
      exact hover transaction hcloses
  · rw [htrace]
    refine h.isolated.append fun later hlater transaction hcarried => ?_
    cases List.mem_singleton.mp hlater
    exact absurd hcarried (hcarries transaction)

/-- An `EndTxn` in flight belongs to a transaction that is being ended. -/
theorem Separated.over_endTxnAt (h : Separated state) {index transaction : Nat}
    (hend : state.endTxnAt index = some transaction) : Over state transaction := by
  unfold State.endTxnAt at hend
  split at hend
  · cases hend
  · next pending hpending =>
      split at hend
      · next commit hcall =>
          cases hend
          have hisEnd : pending.isEnd = true := by simp [EosManager.Pending.isEnd, hcall]
          have hstuck := (h.sound.resolve_right fun hstuck => by
            simp [hstuck.not_isEnd hpending] at hisEnd).stuck_eraseIdx hpending hisEnd
          have hle := h.ends pending (List.mem_of_getElem? hpending) hisEnd
          rcases Nat.lt_or_eq_of_le hle with hlt | heq
          · exact Or.inl hlt
          · refine Or.inr ⟨heq, ?_, ?_⟩ <;>
              rcases hstuck.1 with hstate | hstate <;> simp_all
      · cases hend
      · cases hend
      · cases hend

/-- Ending a transaction whose calls are settled keeps the invariant. -/
theorem Separated.endTransaction (h : Separated state) {transaction : Nat}
    {event : EosManager.Event String}
    (hsettled : ∀ send ∈ state.sends, send.transaction = state.eos.transaction → send.Settled)
    (hstep : state.endTransaction transaction event = some next) : Separated next := by
  unfold State.endTransaction at hstep
  split at hstep
  · obtain ⟨middle, hmanage, rfl⟩ := Option.map_eq_some_iff.mp hstep
    obtain ⟨eos, heos, rfl⟩ := Option.map_eq_some_iff.mp hmanage
    dsimp only
    split <;> exact h.manage heos rfl rfl fun _ => hsettled
  · cases hstep

/-- Every orderly step keeps the invariant. -/
theorem separated_step {config : Config μ σ} (event : Event μ) (h : Separated state)
    (horderly : Orderly state event) (hstep : step config state event = some next) :
    Separated next := by
  have hmanage : ∀ {managed : EosManager.Event String} {after : State μ σ},
      state.manage managed = some after → managed ≠ .commit → managed ≠ .abort →
      Separated after := by
    intro managed after hafter hcommit habort
    obtain ⟨eos, heos, rfl⟩ := Option.map_eq_some_iff.mp hafter
    exact h.manage heos rfl rfl fun hend => (hend.elim hcommit habort).elim
  cases event with
  | transaction =>
      obtain ⟨middle, hmiddle, rfl⟩ := Option.map_eq_some_iff.mp hstep
      refine (hmanage hmiddle (by simp) (by simp)).observe (fun _ => id) ?_ rfl rfl rfl
      exact fun _ hlt => Or.inl hlt
  | send transaction topicMessages =>
      simp only [step] at hstep
      split at hstep
      · next hactive =>
          cases hstep
          -- `send` throws unless the transaction is active
          have hlive : state.eos.manager.state = .transacting := by
            simp [State.isActive] at hactive
            exact hactive.1
          refine ⟨h.sound, h.ends, ?_, ?_, h.closed, h.isolated⟩
          · intro send hmem
            rcases List.mem_append.mp hmem with hold | hnew
            · exact h.owners send hold
            · cases List.mem_singleton.mp hnew
              exact (show transaction = state.eos.transaction from horderly).le
          · intro send hmem hpast
            rcases List.mem_append.mp hmem with hold | hnew
            · exact h.settled send hold hpast
            · cases List.mem_singleton.mp hnew
              rcases hpast with hlt | hnot
              · exact absurd horderly hlt.ne
              · exact absurd hlive hnot
      · cases hstep
  | sendOffsets transaction consumerGroupId topics =>
      simp only [step] at hstep
      split at hstep
      · exact hmanage hstep (by simp) (by simp)
      · cases hstep
  | commit transaction => exact h.endTransaction horderly hstep
  | abort transaction => exact h.endTransaction horderly hstep
  | didEnd transaction =>
      simp only [step] at hstep
      split at hstep
      · cases hstep
        exact ⟨h.sound, h.ends, h.owners, h.settled, h.closed, h.isolated⟩
      · cases hstep
  | found index =>
      obtain ⟨middle, hmiddle, rfl⟩ := Option.map_eq_some_iff.mp hstep
      have hseparated := hmanage hmiddle (by simp) (by simp)
      cases hend : state.endTxnAt index with
      | none => exact hseparated
      | some transaction =>
          refine hseparated.observe (fun _ => id) ?_ rfl rfl rfl
          intro other hother
          cases hother
          obtain ⟨eos, heos, rfl⟩ := Option.map_eq_some_iff.mp hmiddle
          -- `EndTxn` is sent for a transaction that `commit` or `abort` has taken over
          exact (h.over_endTxnAt hend).manage h.sound heos
  | applied index => exact hmanage hstep (by simp) (by simp)
  | answered index =>
      obtain ⟨middle, hmiddle, rfl⟩ := Option.map_eq_some_iff.mp hstep
      have hseparated := hmanage hmiddle (by simp) (by simp)
      cases hend : state.endTxnAt index with
      | none => exact hseparated
      | some transaction =>
          exact ⟨hseparated.sound, hseparated.ends, hseparated.owners, hseparated.settled,
            hseparated.closed, hseparated.isolated⟩
  | failed index retry => exact hmanage hstep (by simp) (by simp)
  | attempt _ _ _ | attemptFails _ _ _ | lockTimeout _ _ _ _ | register _ _ _
  | coordinatorFound _ _ | partitionsAdded _ _ _ | registrationFails _ _ _ _
  | produce _ _ | answer _ _ _ _ | fail _ _ _ _ =>
      obtain ⟨number, send, hworks⟩ := step_works hstep trivial
      exact h.works hworks

/-- In every orderly run, no request for a transaction's messages goes out after the transaction's
`EndTxn` was sent or a later transaction began. -/
theorem isolation (config : Config μ σ) (partitioner : σ) (events : List (Event μ))
    (final : State μ σ)
    (hrun : run (step config) (State.initial partitioner) events = some final)
    (horderly : Meets (step config) Orderly (State.initial partitioner) events) :
    Isolated final.trace := by
  have hseparated : Separated final :=
    invariant_of_meets (fun _ event _ h hok hstep => separated_step event h hok hstep)
      (separated_initial partitioner) horderly hrun
  exact hseparated.isolated

/-! ## Two transactions of one producer -/

/-- A producer that sends everything to partition 0. -/
def onePartition : Config String Unit :=
  { partitioner := purePartitioner fun _ _ => 0, retries := 5 }

/-- One topic with one partition, led by node 1. -/
def oneBroker : ClusterView :=
  { topicMetadata := [("topic", [⟨0, some 1⟩])]
    pool := fun nodeId => if nodeId = 1 then some 1 else none
    connectError := fun _ => none }

/-- The first call of the producer goes through: one attempt, one task, one answer. -/
def deliverFirst : List (Event String) :=
  [.attempt 0 oneBroker ⟨true, none⟩, .register 0 0 ⟨true, none⟩, .coordinatorFound 0 0,
    .partitionsAdded 0 0 ⟨true, none⟩, .produce 0 0]

/-- The first transaction is committed, and the second begins. -/
def commitAndBegin : List (Event String) :=
  [.commit 0, .found 0, .applied 0, .answered 0, .didEnd 0, .transaction]

/-- A call that is answered before its transaction is committed is isolated from the next. -/
theorem isolation_answered :
    ∃ final,
      run (step onePartition) (State.initial ())
        ([.transaction, .send 0 [("topic", ["early"])]] ++ deliverFirst ++
          [.answer 0 0 (fun _ _ => ⟨0, 0⟩) ⟨true, none⟩] ++ commitAndBegin) = some final ∧
      final.trace =
        [.began 0, .addPartitionsToTxn 0 [("topic", [0])],
          .produce 0 [⟨"topic", [⟨0, ["early"]⟩]⟩], .endTxn 0, .began 1] ∧
      Isolated final.trace := by
  have htrace : (run (step onePartition) (State.initial ())
      ([.transaction, .send 0 [("topic", ["early"])]] ++ deliverFirst ++
        [.answer 0 0 (fun _ _ => ⟨0, 0⟩) ⟨true, none⟩] ++ commitAndBegin)).map State.trace =
      some [.began 0, .addPartitionsToTxn 0 [("topic", [0])],
        .produce 0 [⟨"topic", [⟨0, ["early"]⟩]⟩], .endTxn 0, .began 1] := by
    decide
  obtain ⟨final, hrun, hfinal⟩ := Option.map_eq_some_iff.mp htrace
  exact ⟨final, hrun, hfinal, isolation _ _ _ _ hrun (by decide)⟩

/-- A call that still waits for its first attempt when its transaction is committed is registered
and produced in the next transaction. Offsets were added before, so an `EndTxn` is sent. -/
theorem isolation_fails_late_attempt :
    ∃ final,
      run (step onePartition) (State.initial ())
        ([.transaction, .sendOffsets 0 (some "group") (some []), .found 0, .applied 0,
            .answered 0, .found 0, .applied 0, .answered 0, .send 0 [("topic", ["late"])]] ++
          commitAndBegin ++ deliverFirst) = some final ∧
      final.trace =
        [.began 0, .endTxn 0, .began 1, .addPartitionsToTxn 0 [("topic", [0])],
          .produce 0 [⟨"topic", [⟨0, ["late"]⟩]⟩]] ∧
      ¬ Isolated final.trace := by
  have htrace : (run (step onePartition) (State.initial ())
      ([.transaction, .sendOffsets 0 (some "group") (some []), .found 0, .applied 0,
          .answered 0, .found 0, .applied 0, .answered 0, .send 0 [("topic", ["late"])]] ++
        commitAndBegin ++ deliverFirst)).map State.trace =
      some [.began 0, .endTxn 0, .began 1, .addPartitionsToTxn 0 [("topic", [0])],
        .produce 0 [⟨"topic", [⟨0, ["late"]⟩]⟩]] := by
    decide
  obtain ⟨final, hrun, hfinal⟩ := Option.map_eq_some_iff.mp htrace
  refine ⟨final, hrun, hfinal, ?_⟩
  rw [hfinal]
  intro hisolated
  simp [Isolated, Observation.Carries, Observation.Closes] at hisolated

end KafkaJs.Producer.Transaction
