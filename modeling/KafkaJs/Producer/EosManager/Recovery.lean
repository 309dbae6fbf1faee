import KafkaJs.Producer.EosManager.Transactions
import Mathlib.Data.List.Perm.Basic

/-!
# When the transaction manager gets stuck

`commit` and `abort` leave `TRANSACTING` before they look up the coordinator, and only their own
success leads on to `READY`. If the lookup or `EndTxn` fails, no call of the API is legal any
more: the manager is stuck in `COMMITTING` or `ABORTING` for good. Nothing else makes it stuck,
so an idle manager can recover exactly if no `commit` and no `abort` of the run failed.
-/

namespace KafkaJs.Producer.EosManager

open Data Execution

variable {τ : Type} [DecidableEq τ]

/-- A call of the transaction API. -/
def Event.IsCall : Event τ → Prop
  | .beginTransaction | .addPartitionsToTransaction _ | .sendOffsets _ _ | .commit | .abort => True
  | .found _ | .applied _ | .answered _ | .failed _ _ => False

/-- An event that is not an error. -/
def Event.Succeeds : Event τ → Prop
  | .failed _ _ => False
  | .beginTransaction | .addPartitionsToTransaction _ | .sendOffsets _ _ | .commit | .abort
  | .found _ | .applied _ | .answered _ => True

/-- Some call is legal, and calls with succeeding requests lead back to `READY`. -/
def Recoverable (state : State τ) : Prop :=
  (∃ event : Event τ, event.IsCall ∧ (step state event).isSome) ∧
  ∃ events : List (Event τ), (∀ event ∈ events, event.Succeeds) ∧
    ∃ final, run step state events = some final ∧ final.manager.state = .ready ∧
      final.inFlight = []

/-- Whether a call in flight is a `commit` or an `abort`. -/
def Pending.isEnd (pending : Pending τ) : Bool :=
  match pending.call with
  | .endTxn _ => true
  | .addPartitions _ | .sendOffsets | .txnOffsetCommit => false

/-- The step is not the failure of a `commit` or an `abort`. -/
def EndSucceeds (state : State τ) : Event τ → Prop
  | .failed index _ => ∀ pending ∈ state.inFlight[index]?, pending.isEnd = false
  | _ => True

/-- `EndSucceeds` is decidable by the failed call. -/
instance (state : State τ) (event : Event τ) : Decidable (EndSucceeds state event) :=
  match event with
  | .failed index _ =>
      inferInstanceAs (Decidable (∀ pending ∈ state.inFlight[index]?, pending.isEnd = false))
  | .beginTransaction | .addPartitionsToTransaction _ | .sendOffsets _ _ | .commit | .abort
  | .found _ | .applied _ | .answered _ => isTrue trivial

/-! ## How many transactions are being ended -/

/-- The number of `commit` and `abort` calls in flight. -/
def endings (state : State τ) : Nat := state.inFlight.countP Pending.isEnd

/-- Between transactions and inside one, nothing is being ended; otherwise one call is ending
the transaction. -/
def Sound (state : State τ) : Prop :=
  ((state.manager.state = .ready ∨ state.manager.state = .transacting) ∧ endings state = 0) ∨
  ((state.manager.state = .committing ∨ state.manager.state = .aborting) ∧ endings state = 1)

/-- The transaction is being ended, but by no call. -/
def Stuck (state : State τ) : Prop :=
  (state.manager.state = .committing ∨ state.manager.state = .aborting) ∧ endings state = 0

omit [DecidableEq τ] in
/-- A call in flight that moves on stays what it is. -/
theorem countP_isEnd_set {inFlight : List (Pending τ)} {index : Nat}
    {pending other : Pending τ} (h : inFlight[index]? = some pending)
    (hsame : other.isEnd = pending.isEnd) :
    (inFlight.set index other).countP Pending.isEnd = inFlight.countP Pending.isEnd := by
  obtain ⟨hindex, hget⟩ := List.getElem?_eq_some_iff.mp h
  rw [(List.set_perm_cons_eraseIdx hindex _).countP_eq,
    ← (List.getElem_cons_eraseIdx_perm hindex).countP_eq, List.countP_cons, List.countP_cons,
    hget, hsame]

omit [DecidableEq τ] in
/-- A call that is over. -/
theorem countP_isEnd_eraseIdx {inFlight : List (Pending τ)} {index : Nat} {pending : Pending τ}
    (h : inFlight[index]? = some pending) :
    inFlight.countP Pending.isEnd =
      (inFlight.eraseIdx index).countP Pending.isEnd + if pending.isEnd then 1 else 0 := by
  obtain ⟨hindex, hget⟩ := List.getElem?_eq_some_iff.mp h
  rw [← (List.getElem_cons_eraseIdx_perm hindex).countP_eq, List.countP_cons, hget]

omit [DecidableEq τ] in
/-- A call that registers does not end the transaction. -/
theorem Pending.Registers.isEnd_eq {pending : Pending τ} (h : pending.Registers) :
    pending.isEnd = false := by
  obtain ⟨call, stage, transaction⟩ := pending
  cases call with
  | endTxn commit => exact absurd h id
  | addPartitions collected => rfl
  | sendOffsets => rfl
  | txnOffsetCommit => exact absurd h id

omit [DecidableEq τ] in
/-- Both look only at the state of the manager and at the calls that are ending it. -/
theorem sound_congr {state next : State τ}
    (hstate : next.manager.state = state.manager.state)
    (hendings : endings next = endings state) :
    (Sound next ↔ Sound state) ∧ (Stuck next ↔ Stuck state) := by
  simp only [Sound, Stuck, hstate, hendings, and_self]

omit [DecidableEq τ] in
/-- While a call is ending the transaction, the manager is not stuck, and it is stuck without
that call. -/
theorem Sound.stuck_eraseIdx {state : State τ} {index : Nat} {pending : Pending τ}
    (hpending : state.inFlight[index]? = some pending) (hend : pending.isEnd = true)
    (h : Sound state) :
    Stuck { state with inFlight := state.inFlight.eraseIdx index } := by
  have hcount := countP_isEnd_eraseIdx hpending
  simp only [hend, if_true] at hcount
  rcases h with ⟨-, hnone⟩ | ⟨hstate, hone⟩
  · rw [endings, hcount] at hnone
    omega
  · refine ⟨hstate, ?_⟩
    rw [endings, hcount] at hone
    simp only [endings]
    omega

omit [DecidableEq τ] in
/-- A stuck manager has no end of the transaction in flight. -/
theorem Stuck.not_isEnd {state : State τ} (h : Stuck state) {index : Nat} {pending : Pending τ}
    (hpending : state.inFlight[index]? = some pending) : pending.isEnd = false := by
  have hcount := countP_isEnd_eraseIdx hpending
  have hnone := h.2
  rw [endings, hcount] at hnone
  cases hend : pending.isEnd with
  | false => rfl
  | true => simp [hend] at hnone

omit [DecidableEq τ] in
/-- An ending transaction becomes ready. -/
theorem Stuck.becomeReady {state : State τ} (h : Stuck state) : Sound state.becomeReady := by
  have hready : state.becomeReady =
      { state with manager := Manager.fresh, transaction := state.transaction + 1,
                   history := state.history ++ [.ready] } := by
    rcases h.1 with hstate | hstate <;>
      simp [State.becomeReady, Manager.transitionTo, hstate, validTransitions, Manager.fresh]
  rw [hready]
  exact Or.inl ⟨Or.inl rfl, h.2⟩

/-- What happens to the manager when a call resumes. -/
theorem resume_sound {state : State τ} {index : Nat} {pending : Pending τ}
    (hpending : state.inFlight[index]? = some pending) :
    (Sound state → Sound (state.resume index pending)) ∧
    (Stuck state → Stuck (state.resume index pending)) := by
  cases hcall : pending.call with
  | addPartitions collected =>
      have hcount := countP_isEnd_eraseIdx hpending
      simp only [Pending.isEnd, hcall, Bool.false_eq_true, if_false, Nat.add_zero] at hcount
      obtain ⟨hsound, hstuck⟩ := @sound_congr _ state (state.resume index pending)
        (by simp [State.resume, hcall, recordPartitions_frame])
        (by simp only [State.resume, hcall, endings]; exact hcount.symm)
      exact ⟨hsound.mpr, hstuck.mpr⟩
  | sendOffsets =>
      obtain ⟨hsound, hstuck⟩ := @sound_congr _ state (state.resume index pending)
        (by simp [State.resume, hcall])
        (by
          simp only [State.resume, hcall, endings]
          exact countP_isEnd_set hpending (by simp [Pending.isEnd, hcall]))
      exact ⟨hsound.mpr, hstuck.mpr⟩
  | txnOffsetCommit =>
      have hcount := countP_isEnd_eraseIdx hpending
      simp only [Pending.isEnd, hcall, Bool.false_eq_true, if_false, Nat.add_zero] at hcount
      obtain ⟨hsound, hstuck⟩ := @sound_congr _ state (state.resume index pending)
        (by simp [State.resume, hcall])
        (by simp only [State.resume, hcall, endings]; exact hcount.symm)
      exact ⟨hsound.mpr, hstuck.mpr⟩
  | endTxn commit =>
      have hend : pending.isEnd = true := by simp [Pending.isEnd, hcall]
      refine ⟨fun h => ?_, fun h => absurd hend (by simp [h.not_isEnd hpending])⟩
      simp only [State.resume, hcall]
      exact (h.stuck_eraseIdx hpending hend).becomeReady

/-- Every step keeps the manager sound, unless it is the failure of a `commit` or an `abort`,
which leaves it stuck. A stuck manager stays stuck. -/
theorem sound_step {state next : State τ} {event : Event τ} (h : step state event = some next) :
    (Sound state → EndSucceeds state event → Sound next) ∧
    (Sound state → ¬ EndSucceeds state event → Stuck next) ∧
    (Stuck state → Stuck next) := by
  cases step_cases h with
  | begun hready =>
      refine ⟨?_, fun _ hfails => absurd trivial hfails, ?_⟩
      · intro hsound _
        refine Or.inl ⟨Or.inr rfl, ?_⟩
        rcases hsound with ⟨-, hnone⟩ | ⟨hstate, -⟩
        · exact hnone
        · simp [hready] at hstate
      · intro hstuck
        simp [Stuck, hready] at hstuck
  | called manager new hstate hnext _ hnew hnotFailed _ =>
      have hnone : new.countP Pending.isEnd = 0 := by
        rw [List.countP_eq_zero]
        intro pending hmem
        simp [(hnew pending hmem).1.isEnd_eq]
      -- the new calls register or commit offsets, so the ends in flight are as many as before
      have hendings : (state.inFlight ++ new).countP Pending.isEnd = endings state := by
        rw [List.countP_append, hnone]
        rfl
      refine ⟨?_, ?_, ?_⟩
      · intro hsound _
        refine Or.inl ⟨Or.inr hnext, hendings.trans ?_⟩
        rcases hsound with ⟨-, hzero⟩ | ⟨hother, -⟩
        · exact hzero
        · simp [hstate] at hother
      · intro _ hfails
        cases event with
        | failed index retry => exact absurd rfl (hnotFailed index retry)
        | _ => exact absurd trivial hfails
      · intro hstuck
        simp [Stuck, hstate] at hstuck
  | endedAtOnce commit hevent hstate _ =>
      refine ⟨?_, ?_, ?_⟩
      · intro hsound _
        refine Or.inl ⟨Or.inl rfl, ?_⟩
        rcases hsound with ⟨-, hzero⟩ | ⟨hother, -⟩
        · exact hzero
        · simp [hstate] at hother
      · intro _ hfails
        cases commit <;> (subst hevent; exact absurd trivial hfails)
      · intro hstuck
        simp [Stuck, hstate] at hstuck
  | ending commit hevent hstate _ =>
      refine ⟨?_, ?_, ?_⟩
      · intro hsound _
        refine Or.inr ⟨?_, ?_⟩
        · cases commit <;> simp [endingState]
        · rcases hsound with ⟨-, hzero⟩ | ⟨hother, -⟩
          · simp only [endings, List.countP_append] at hzero ⊢
            rw [hzero]
            rfl
          · simp [hstate] at hother
      · intro _ hfails
        cases commit <;> (subst hevent; exact absurd trivial hfails)
      · intro hstuck
        simp [Stuck, hstate] at hstuck
  | @sent index pending hpending _ =>
      obtain ⟨hsound, hstuck⟩ := @sound_congr _ state
        (State.observeSent { state with
          inFlight := state.inFlight.set index { pending with stage := .sent } } pending.call)
        (by simp) (by simp only [endings, observeSent_inFlight]; exact countP_isEnd_set hpending rfl)
      exact ⟨fun h _ => hsound.mpr h, fun _ hfails => absurd trivial hfails, hstuck.mpr⟩
  | @applied index pending hpending _ =>
      obtain ⟨hsound, hstuck⟩ := @sound_congr _ state
        (State.observeApplied { state with
          inFlight := state.inFlight.set index { pending with stage := .applied } } pending.call)
        (by simp)
        (by simp only [endings, observeApplied_inFlight]; exact countP_isEnd_set hpending rfl)
      exact ⟨fun h _ => hsound.mpr h, fun _ hfails => absurd trivial hfails, hstuck.mpr⟩
  | resumed pending hpending _ =>
      obtain ⟨hsound, hstuck⟩ := resume_sound hpending
      exact ⟨fun h _ => hsound h, fun _ hfails => absurd trivial hfails, hstuck⟩
  | @failed index retry pending hpending =>
      have hcount := countP_isEnd_eraseIdx hpending
      -- only the failure of an end makes a difference to the manager
      have hother : pending.isEnd = false →
          (Sound { state with inFlight := state.inFlight.eraseIdx index } ↔ Sound state) ∧
          (Stuck { state with inFlight := state.inFlight.eraseIdx index } ↔ Stuck state) := by
        intro hend
        simp only [hend, Bool.false_eq_true, if_false, Nat.add_zero] at hcount
        exact sound_congr rfl hcount.symm
      refine ⟨?_, ?_, fun h => (hother (h.not_isEnd hpending)).2.mpr h⟩
      · intro hsound hsucceeds
        exact (hother (hsucceeds pending hpending)).1.mpr hsound
      · intro hsound hfails
        cases hend : pending.isEnd with
        | true => exact hsound.stuck_eraseIdx hpending hend
        | false =>
            refine absurd ?_ hfails
            intro other hmem
            cases hpending.symm.trans hmem
            exact hend
  | @retried index pending hpending hcall =>
      obtain ⟨hsound, hstuck⟩ := @sound_congr _ state
        { state with
          inFlight := state.inFlight.set index { pending with stage := .sent } }
        rfl (countP_isEnd_set hpending rfl)
      refine ⟨fun h _ => hsound.mpr h, ?_, hstuck.mpr⟩
      intro _ hfails
      refine absurd ?_ hfails
      intro other hmem
      cases hpending.symm.trans hmem
      simp [Pending.isEnd, hcall]

/-- The manager is sound or stuck, whatever happens. -/
theorem sound_or_stuck_step {state next : State τ} {event : Event τ}
    (h : Sound state ∨ Stuck state) (hstep : step state event = some next) :
    Sound next ∨ Stuck next := by
  obtain ⟨hkeeps, hfails, hstays⟩ := sound_step hstep
  rcases h with hsound | hstuck
  · by_cases hok : EndSucceeds state event
    · exact Or.inl (hkeeps hsound hok)
    · exact Or.inr (hfails hsound hok)
  · exact Or.inr (hstays hstuck)

/-- A run keeps the manager sound or leaves it stuck, according to whether some `commit` or
`abort` failed. -/
theorem sound_or_stuck {state final : State τ} {events : List (Event τ)} (h : Sound state)
    (hrun : run step state events = some final) :
    (Meets step EndSucceeds state events → Sound final) ∧
    (¬ Meets step EndSucceeds state events → Stuck final) := by
  have hstays : ∀ (events : List (Event τ)) {state : State τ}, Stuck state →
      run step state events = some final → Stuck final := fun events state hstuck hrun =>
    invariant_of_run (fun _ _ _ hstuck hstep => (sound_step hstep).2.2 hstuck) hstuck hrun
  refine ⟨fun hmeets => invariant_of_meets (fun _ _ _ hsound hok hstep =>
    (sound_step hstep).1 hsound hok) h hmeets hrun, ?_⟩
  induction events generalizing state with
  | nil => exact fun hfails => absurd trivial hfails
  | cons event events ih =>
      intro hfails
      obtain ⟨next, hstep, hrest⟩ := run_cons_eq_some.mp hrun
      obtain ⟨hsound, hstuck, -⟩ := sound_step hstep
      rw [meets_cons hstep] at hfails
      by_cases hok : EndSucceeds state event
      · exact ih (hsound h hok) hrest fun hmeets => hfails ⟨hok, hmeets⟩
      · exact hstays events (hstuck h hok) hrest

/-- No call is legal in a stuck manager. -/
theorem Stuck.illegal {state : State τ} (h : Stuck state) {event : Event τ}
    (hcall : event.IsCall) : step state event = none := by
  cases event with
  | found _ | applied _ | answered _ | failed _ _ => exact absurd hcall id
  | beginTransaction =>
      rcases h.1 with hstate | hstate <;> simp [step, Manager.legal, legalStates, hstate]
  | addPartitionsToTransaction _ =>
      rcases h.1 with hstate | hstate <;> simp [step, Manager.legal, legalStates, hstate]
  | sendOffsets _ _ =>
      rcases h.1 with hstate | hstate <;> simp [step, Manager.legal, legalStates, hstate]
  | commit =>
      rcases h.1 with hstate | hstate <;> simp [step, Manager.legal, legalStates, hstate]
  | abort =>
      rcases h.1 with hstate | hstate <;> simp [step, Manager.legal, legalStates, hstate]

/-- From an idle transaction, `abort` leads back to `READY`. -/
theorem abort_recovers {state : State τ} (hidle : state.inFlight = [])
    (hstate : state.manager.state = .transacting) : Recoverable state := by
  refine ⟨⟨.abort, trivial, by simp [step, Manager.legal, legalStates, hstate]⟩, ?_⟩
  cases hongoing : state.manager.isOngoing with
  | false =>
      refine ⟨[.abort], by simp [Event.Succeeds], ?_⟩
      have hended : state.endTransaction false =
          { manager := Manager.fresh, inFlight := [], transaction := state.transaction + 1
            history := state.history ++ [.ready] } := by
        have hrecord : ({ state.manager with state := .aborting } : Manager τ).isOngoing =
            false := hongoing
        simp [State.endTransaction, Manager.transitionTo, hstate, validTransitions, hrecord,
          State.becomeReady, hidle, Manager.fresh]
      refine ⟨_, by simp [run, step, Manager.legal, legalStates, hstate]; rfl, ?_⟩
      rw [hended]
      exact ⟨rfl, rfl⟩
  | true =>
      refine ⟨[.abort, .found 0, .applied 0, .answered 0], by simp [Event.Succeeds], ?_⟩
      have hended : state.endTransaction false =
          { state with
            manager := { state.manager with state := .aborting }
            inFlight := [⟨.endTxn false, .lookup, state.transaction⟩] } := by
        have hrecord : ({ state.manager with state := .aborting } : Manager τ).isOngoing =
            true := hongoing
        simp [State.endTransaction, Manager.transitionTo, hstate, validTransitions, hrecord,
          hidle]
      refine ⟨_, by
        simp [run, step, Manager.legal, legalStates, hstate, hended, State.observeSent,
          State.observeApplied, State.resume]; rfl, ?_⟩
      simp [State.becomeReady, Manager.transitionTo, validTransitions]

/-- In every idle state that a run reaches, the manager can recover exactly if no `commit` and
no `abort` of the run failed. -/
theorem recoverable_iff (events : List (Event τ)) (final : State τ)
    (hrun : run step State.initial events = some final) (hidle : final.inFlight = []) :
    Recoverable final ↔ Meets step EndSucceeds State.initial events := by
  obtain ⟨hsound, hstuck⟩ := sound_or_stuck (Or.inl ⟨Or.inl rfl, rfl⟩) hrun
  constructor
  · rintro ⟨⟨event, hcall, hlegal⟩, -⟩
    by_contra hfails
    simp [(hstuck hfails).illegal hcall] at hlegal
  · intro hmeets
    rcases hsound hmeets with ⟨hready | htransacting, -⟩ | ⟨-, hone⟩
    · exact ⟨⟨.beginTransaction, trivial, by
        simp [step, Manager.legal, legalStates, hready, Manager.transitionTo,
          validTransitions]⟩, [], by simp, final, rfl, hready, hidle⟩
    · exact abort_recovers hidle htransacting
    · simp [endings, hidle] at hone

/-! ## A failed registration and a failed commit -/

/-- A transaction whose only registration fails. -/
def failedRegistration : List (Event String) :=
  [.beginTransaction, .addPartitionsToTransaction [("topic", [0])], .found 0, .failed 0 false]

/-- A transaction with one registered partition whose `commit` fails in the lookup. -/
def failedCommit : List (Event String) :=
  [.beginTransaction, .addPartitionsToTransaction [("topic", [0])], .found 0, .applied 0,
    .answered 0, .commit, .failed 0 false]

/-- After a failed registration the transaction can still be aborted. -/
theorem recoverable_after_failedRegistration :
    ∃ final : State String, run step State.initial failedRegistration = some final ∧
      final.inFlight = [] ∧ Recoverable final := by
  have hend : ((run step State.initial failedRegistration).map fun final : State String =>
      final.inFlight.length) = some 0 := by
    decide
  obtain ⟨final, hrun, hlength⟩ := Option.map_eq_some_iff.mp hend
  have hidle := List.length_eq_zero_iff.mp hlength
  exact ⟨final, hrun, hidle, (recoverable_iff _ _ hrun hidle).mpr (by decide)⟩

/-- After a failed `commit` no call is legal, `abort` included. -/
theorem stuck_after_failedCommit :
    ∃ final : State String, run step State.initial failedCommit = some final ∧
      final.inFlight = [] ∧ step final .abort = none ∧ ¬ Recoverable final := by
  have hend : ((run step State.initial failedCommit).map fun final : State String =>
      (final.inFlight.length, final.manager.state)) = some (0, .committing) := by
    decide
  obtain ⟨final, hrun, heq⟩ := Option.map_eq_some_iff.mp hend
  simp only [Prod.mk.injEq, List.length_eq_zero_iff] at heq
  have hstuck : Stuck final := ⟨Or.inl heq.2, by simp [endings, heq.1]⟩
  refine ⟨final, hrun, heq.1, hstuck.illegal trivial, ?_⟩
  rintro ⟨⟨event, hcall, hlegal⟩, -⟩
  simp [hstuck.illegal hcall] at hlegal

end KafkaJs.Producer.EosManager
