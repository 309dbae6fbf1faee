import KafkaJs.Execution.Run
import KafkaJs.Producer.EosManager.Manager

/-!
# Runs of the transactional eos manager

The asynchronous operations of the eos manager as calls in flight. A call waits for the lookup
of the coordinator, then for the answer to its request; the coordinator applies the request in
between, and lookup and request may fail at every point, also after the request was applied. Any
number of calls may be in flight. A call that finds the manager in an illegal state is rejected
at once and changes nothing, so it is not an event.

The history records what is sent to the coordinator and when the manager becomes ready;
`transaction` counts the transactions, and every call carries the number of the transaction in
which it was made. The specifications read them, the code does not.
-/

namespace KafkaJs.Producer.EosManager

open Data

/-- The asynchronous calls, with what they have computed before their first await.
`txnOffsetCommit` is the rest of `sendOffsets`, once the offsets are added to the transaction. -/
inductive Call (τ : Type) where
  | addPartitions (collected : InsertionMap τ (List Int))
  | sendOffsets
  | txnOffsetCommit
  | endTxn (commit : Bool)

/-- Where a call stands with its coordinator. -/
inductive Stage where
  | lookup
  | sent
  | applied
  deriving DecidableEq, Repr

/-- A call in flight. -/
structure Pending (τ : Type) where
  call : Call τ
  stage : Stage
  transaction : Nat

/-- What the specifications observe. -/
inductive Observation where
  | registrationSent
  | registrationApplied
  | recorded (transaction : Nat)
  | endTxnSent
  | ready
  deriving DecidableEq, Repr

/-- The manager with the calls in flight. -/
structure State (τ : Type) where
  manager : Manager τ
  inFlight : List (Pending τ)
  transaction : Nat
  history : List Observation

/-- What may happen next: a call of the API that the guards admit, or the progress of a call in
flight. `failed` is an error of the lookup or the request, `retry` whether the retrier of
`sendOffsets` tries `txnOffsetCommit` again. -/
inductive Event (τ : Type) where
  | beginTransaction
  | addPartitionsToTransaction (topicData : List (τ × List Int))
  | sendOffsets (consumerGroupId : Option String) (topics : Option (List (τ × List (Int × Int))))
  | commit
  | abort
  | found (index : Nat)
  | applied (index : Nat)
  | answered (index : Nat)
  | failed (index : Nat) (retry : Bool)

variable {τ : Type}

/-- After initialisation. -/
def State.initial : State τ :=
  { manager := Manager.fresh, inFlight := [], transaction := 0, history := [] }

/-- The manager becomes ready, and the next transaction number starts. An invalid transition
would throw and change nothing. -/
def State.becomeReady (state : State τ) : State τ :=
  match state.manager.transitionTo .ready with
  | .error _ => state
  | .ok manager =>
      { state with
        manager := manager
        transaction := state.transaction + 1
        history := state.history ++ [.ready] }

/-- `commit` and `abort` up to their first await. -/
def State.endTransaction (state : State τ) (commit : Bool) : State τ :=
  match state.manager.transitionTo (if commit then .committing else .aborting) with
  | .error _ => state
  | .ok manager =>
      let state := { state with manager := manager }
      if manager.isOngoing then
        { state with
          inFlight := state.inFlight ++ [⟨.endTxn commit, .lookup, state.transaction⟩] }
      else state.becomeReady

/-- The request of a call goes out. -/
def State.observeSent (state : State τ) : Call τ → State τ
  | .addPartitions _ | .sendOffsets =>
      { state with history := state.history ++ [.registrationSent] }
  | .endTxn _ => { state with history := state.history ++ [.endTxnSent] }
  | .txnOffsetCommit => state

/-- The coordinator applies the request of a call. -/
def State.observeApplied (state : State τ) : Call τ → State τ
  | .addPartitions _ | .sendOffsets =>
      { state with history := state.history ++ [.registrationApplied] }
  | .endTxn _ | .txnOffsetCommit => state

/-- Observing a request as sent keeps the requests in flight. -/
@[simp] theorem observeSent_inFlight (state : State τ) (call : Call τ) :
    (state.observeSent call).inFlight = state.inFlight := by
  cases call <;> rfl

/-- Observing a request as sent keeps the manager. -/
@[simp] theorem observeSent_manager (state : State τ) (call : Call τ) :
    (state.observeSent call).manager = state.manager := by
  cases call <;> rfl

/-- Observing a request as sent keeps the transaction. -/
@[simp] theorem observeSent_transaction (state : State τ) (call : Call τ) :
    (state.observeSent call).transaction = state.transaction := by
  cases call <;> rfl

/-- Observing a request as applied keeps the requests in flight. -/
@[simp] theorem observeApplied_inFlight (state : State τ) (call : Call τ) :
    (state.observeApplied call).inFlight = state.inFlight := by
  cases call <;> rfl

/-- Observing a request as applied keeps the manager. -/
@[simp] theorem observeApplied_manager (state : State τ) (call : Call τ) :
    (state.observeApplied call).manager = state.manager := by
  cases call <;> rfl

/-- Observing a request as applied keeps the transaction. -/
@[simp] theorem observeApplied_transaction (state : State τ) (call : Call τ) :
    (state.observeApplied call).transaction = state.transaction := by
  cases call <;> rfl

variable [DecidableEq τ]

/-- A call resumes with the answer to its request. The call is no longer in flight, except for
`sendOffsets`, which goes on to the group coordinator. -/
def State.resume (state : State τ) (index : Nat) (pending : Pending τ) : State τ :=
  match pending.call with
  | .addPartitions collected =>
      { state with
        manager := (state.manager.recordPartitions (collectedPartitions collected)).1
        inFlight := state.inFlight.eraseIdx index
        history := state.history ++ [.recorded pending.transaction] }
  | .sendOffsets =>
      { state with
        manager := { state.manager with hasOffsetsAddedToTransaction := true }
        inFlight := state.inFlight.set index
          { pending with call := .txnOffsetCommit, stage := .lookup }
        history := state.history ++ [.recorded pending.transaction] }
  | .txnOffsetCommit => { state with inFlight := state.inFlight.eraseIdx index }
  | .endTxn _ => { state with inFlight := state.inFlight.eraseIdx index }.becomeReady

/-- One event. -/
def step (state : State τ) : Event τ → Option (State τ)
  | .beginTransaction =>
      if state.manager.legal .beginTransaction then
        match state.manager.transitionTo .transacting with
        | .error _ => some state
        | .ok manager => some { state with manager := manager }
      else none
  | .addPartitionsToTransaction topicData =>
      if state.manager.legal .addPartitionsToTransaction then
        let (manager, collected) := state.manager.collect topicData
        if collected.entries = [] then some { state with manager := manager }
        else some { state with
          manager := manager
          inFlight := state.inFlight ++ [⟨.addPartitions collected, .lookup, state.transaction⟩] }
      else none
  | .sendOffsets consumerGroupId topics =>
      if state.manager.legal .sendOffsets then
        -- the two assertions on the arguments
        match consumerGroupId, topics with
        | some consumerGroupId, some _ =>
            if consumerGroupId = "" then some state
            else some { state with
              inFlight := state.inFlight ++ [⟨.sendOffsets, .lookup, state.transaction⟩] }
        | _, _ => some state
      else none
  | .commit => if state.manager.legal .commit then some (state.endTransaction true) else none
  | .abort => if state.manager.legal .abort then some (state.endTransaction false) else none
  | .found index =>
      match state.inFlight[index]? with
      | none => none
      | some pending =>
          match pending.stage with
          | .lookup =>
              some ({ state with
                inFlight := state.inFlight.set index { pending with stage := .sent } }.observeSent
                pending.call)
          | .sent | .applied => none
  | .applied index =>
      match state.inFlight[index]? with
      | none => none
      | some pending =>
          match pending.stage with
          | .sent =>
              some ({ state with
                inFlight := state.inFlight.set index
                  { pending with stage := .applied } }.observeApplied pending.call)
          | .lookup | .applied => none
  | .answered index =>
      match state.inFlight[index]? with
      | none => none
      | some pending =>
          match pending.stage with
          | .applied => some (state.resume index pending)
          | .lookup | .sent => none
  | .failed index retry =>
      match state.inFlight[index]? with
      | none => none
      | some pending =>
          match pending.call, retry with
          | .txnOffsetCommit, true =>
              some { state with
                inFlight := state.inFlight.set index { pending with stage := .sent } }
          | _, _ => some { state with inFlight := state.inFlight.eraseIdx index }

/-! ## Steps, case by case -/

/-- A call that registers partitions or offsets. -/
def Pending.Registers (pending : Pending τ) : Prop :=
  match pending.call with
  | .addPartitions _ | .sendOffsets => True
  | .txnOffsetCommit | .endTxn _ => False

/-- The state `commit` or `abort` leaves `TRANSACTING` for. -/
def endingState (commit : Bool) : TransactionState := if commit then .committing else .aborting

/-- What an event can do. -/
inductive Transition (state : State τ) : Event τ → State τ → Prop where
  | begun : state.manager.state = .ready →
      Transition state .beginTransaction
        { state with manager := { state.manager with state := .transacting } }
  /-- A registration is called; it has nothing to do, or it looks up the coordinator. -/
  | called {event} (manager : Manager τ) (new : List (Pending τ)) :
      state.manager.state = .transacting → manager.state = .transacting →
      manager.isOngoing = state.manager.isOngoing →
      (∀ pending ∈ new, pending.Registers ∧ pending.stage = .lookup ∧
        pending.transaction = state.transaction) →
      (∀ index retry, event ≠ .failed index retry) → (∀ index, event ≠ .answered index) →
      Transition state event { state with manager := manager, inFlight := state.inFlight ++ new }
  /-- The transaction ends without a request because nothing is recorded. -/
  | endedAtOnce {event} (commit : Bool) : event = (if commit then .commit else .abort) →
      state.manager.state = .transacting → state.manager.isOngoing = false →
      Transition state event
        { manager := Manager.fresh, inFlight := state.inFlight
          transaction := state.transaction + 1, history := state.history ++ [.ready] }
  | ending {event} (commit : Bool) : event = (if commit then .commit else .abort) →
      state.manager.state = .transacting → state.manager.isOngoing = true →
      Transition state event
        { state with
          manager := { state.manager with state := endingState commit }
          inFlight := state.inFlight ++ [⟨.endTxn commit, .lookup, state.transaction⟩] }
  /-- A call moves on: its request goes out, or is applied. -/
  | sent {index} (pending : Pending τ) : state.inFlight[index]? = some pending →
      pending.stage = .lookup →
      Transition state (.found index) (State.observeSent { state with
        inFlight := state.inFlight.set index { pending with stage := .sent } } pending.call)
  | applied {index} (pending : Pending τ) : state.inFlight[index]? = some pending →
      pending.stage = .sent →
      Transition state (.applied index) (State.observeApplied { state with
        inFlight := state.inFlight.set index { pending with stage := .applied } } pending.call)
  | resumed {index} (pending : Pending τ) : state.inFlight[index]? = some pending →
      pending.stage = .applied →
      Transition state (.answered index) (state.resume index pending)
  /-- A call is rejected. -/
  | failed {index retry} (pending : Pending τ) : state.inFlight[index]? = some pending →
      Transition state (.failed index retry)
        { state with inFlight := state.inFlight.eraseIdx index }
  /-- The retrier of `sendOffsets` tries again. -/
  | retried {index} (pending : Pending τ) : state.inFlight[index]? = some pending →
      pending.call = .txnOffsetCommit →
      Transition state (.failed index true) { state with
        inFlight := state.inFlight.set index { pending with stage := .sent } }

/-- `commit` and `abort`, case by case. -/
theorem endTransaction_cases {state : State τ} {event : Event τ} (commit : Bool)
    (hevent : event = if commit then .commit else .abort)
    (hstate : state.manager.state = .transacting) :
    Transition state event (state.endTransaction commit) := by
  have htransition : state.manager.transitionTo (if commit then .committing else .aborting) =
      .ok { state.manager with state := endingState commit } := by
    cases commit <;> simp [Manager.transitionTo, hstate, validTransitions, endingState]
  have hongoing : ({ state.manager with state := endingState commit } : Manager τ).isOngoing =
      state.manager.isOngoing := rfl
  rw [State.endTransaction, htransition]
  cases hrecorded : state.manager.isOngoing with
  | true =>
      simp only [hongoing, hrecorded, if_true]
      exact .ending commit hevent hstate hrecorded
  | false =>
      simp only [hongoing, hrecorded, Bool.false_eq_true, if_false]
      have hready : State.becomeReady
          { state with manager := { state.manager with state := endingState commit } } =
          { manager := Manager.fresh, inFlight := state.inFlight
            transaction := state.transaction + 1, history := state.history ++ [.ready] } := by
        cases commit <;>
          simp [State.becomeReady, Manager.transitionTo, validTransitions, endingState,
            Manager.fresh]
      rw [hready]
      exact .endedAtOnce commit hevent hstate hrecorded

/-- Every step is one of the transitions. -/
theorem step_cases {state next : State τ} {event : Event τ} (h : step state event = some next) :
    Transition state event next := by
  cases event with
  | beginTransaction =>
      simp only [step] at h
      split at h
      · next hlegal =>
          have hstate : state.manager.state = .ready := by
            simpa [Manager.legal, legalStates] using hlegal
          simp only [Manager.transitionTo, hstate, validTransitions] at h
          cases h
          exact .begun hstate
      · cases h
  | addPartitionsToTransaction topicData =>
      simp only [step] at h
      split at h
      · next hlegal =>
          have hstate : state.manager.state = .transacting := by
            simpa [Manager.legal, legalStates] using hlegal
          have hcollect := collect_frame state.manager topicData
          have hongoing := isOngoing_collect state.manager topicData
          split at h
          · cases h
            simpa using @Transition.called _ _ state _ _ [] hstate (hcollect.1.trans hstate)
              hongoing (by simp) (by simp) (by simp)
          · cases h
            refine .called _ _ hstate (hcollect.1.trans hstate) hongoing ?_ (by simp) (by simp)
            intro pending hmem
            cases List.mem_singleton.mp hmem
            exact ⟨trivial, rfl, rfl⟩
      · cases h
  | sendOffsets consumerGroupId topics =>
      simp only [step] at h
      split at h
      · next hlegal =>
          have hstate : state.manager.state = .transacting := by
            simpa [Manager.legal, legalStates] using hlegal
          have hnothing : Transition state (.sendOffsets consumerGroupId topics) state := by
            simpa using @Transition.called _ _ state
              (.sendOffsets consumerGroupId topics) state.manager [] hstate hstate rfl
              (by simp) (by simp) (by simp)
          split at h
          · split at h
            · cases h
              exact hnothing
            · cases h
              refine .called _ _ hstate hstate rfl ?_ (by simp) (by simp)
              intro pending hmem
              cases List.mem_singleton.mp hmem
              exact ⟨trivial, rfl, rfl⟩
          · cases h
            exact hnothing
      · cases h
  | commit =>
      simp only [step] at h
      split at h
      · next hlegal =>
          cases h
          exact endTransaction_cases true rfl
            (by simpa [Manager.legal, legalStates] using hlegal)
      · cases h
  | abort =>
      simp only [step] at h
      split at h
      · next hlegal =>
          cases h
          exact endTransaction_cases false rfl
            (by simpa [Manager.legal, legalStates] using hlegal)
      · cases h
  | found index =>
      simp only [step] at h
      split at h
      · cases h
      · next pending hpending =>
          split at h
          · next hstage =>
              cases h
              exact .sent pending hpending hstage
          · cases h
          · cases h
  | applied index =>
      simp only [step] at h
      split at h
      · cases h
      · next pending hpending =>
          split at h
          · next hstage =>
              cases h
              exact .applied pending hpending hstage
          · cases h
          · cases h
  | answered index =>
      simp only [step] at h
      split at h
      · cases h
      · next pending hpending =>
          split at h
          · next hstage =>
              cases h
              exact .resumed pending hpending hstage
          · cases h
          · cases h
  | failed index retry =>
      simp only [step] at h
      split at h
      · cases h
      · next pending hpending =>
          split at h
          · next hcall =>
              cases h
              exact .retried pending hpending hcall
          · cases h
            exact .failed pending hpending

end KafkaJs.Producer.EosManager
