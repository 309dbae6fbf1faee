import KafkaJs.Producer.EosManager.Recovery

/-!
# Registrations and `EndTxn`

The client records a partition or the offsets of a group only when the coordinator's answer
arrives, in whatever record is current by then, and `commit` and `abort` send `EndTxn` only if
something is recorded. So a registration whose answer was lost leaves a transaction open at the
coordinator, and an answer that arrives after its transaction ended is recorded for the next one.
These two are all that can go wrong: `OnTime` excludes them, and along every run that meets it
the invariant `Accounted` holds.
-/

namespace KafkaJs.Producer.EosManager

open Data Execution

/-! ## Histories -/

/-- What was observed since the manager last became ready, newest first. -/
def sinceReady (history : List Observation) : List Observation :=
  history.reverse.takeWhile fun observation => observation ≠ .ready

/-- Nothing has been observed since the manager just became ready. -/
@[simp] theorem sinceReady_ready (history : List Observation) :
    sinceReady (history ++ [.ready]) = [] := by
  simp [sinceReady]

/-- Any other observation is added to those since the manager was ready. -/
theorem sinceReady_append {observation : Observation} (h : observation ≠ .ready)
    (history : List Observation) :
    sinceReady (history ++ [observation]) = observation :: sinceReady history := by
  simp [sinceReady, h]

/-- What was observed since the manager was ready stays so until the next time it is. -/
theorem mem_sinceReady_append {observation other : Observation} (hother : other ≠ .ready)
    {history : List Observation} (h : observation ∈ sinceReady history) :
    observation ∈ sinceReady (history ++ [other]) := by
  rw [sinceReady_append hother]
  exact List.mem_cons_of_mem _ h

/-- Whenever the manager became ready after the coordinator applied a registration, `EndTxn` had
been sent in between. -/
def EndsApplied (history : List Observation) : Prop :=
  ∀ before, before ++ [.ready] <+: history →
    .registrationApplied ∈ sinceReady before → .endTxnSent ∈ sinceReady before

/-- Whenever `EndTxn` was sent, a registration had been sent since the manager became ready. -/
def EndsSent (history : List Observation) : Prop :=
  ∀ before, before ++ [.endTxnSent] <+: history → .registrationSent ∈ sinceReady before

/-- A history whose registrations are ended stays so if the next observation ends them before the
manager is ready again. -/
theorem EndsApplied.append {history : List Observation} (h : EndsApplied history)
    {observation : Observation}
    (hready : observation = .ready → .registrationApplied ∈ sinceReady history →
      .endTxnSent ∈ sinceReady history) : EndsApplied (history ++ [observation]) := by
  intro before hprefix
  rcases List.prefix_concat_iff.mp hprefix with heq | hold
  · obtain ⟨rfl, hlast⟩ := List.append_inj' heq rfl
    exact hready (by simpa using hlast.symm)
  · exact h before hold

/-- A history that ends registered transactions only stays so if the next observation does. -/
theorem EndsSent.append {history : List Observation} (h : EndsSent history)
    {observation : Observation}
    (hend : observation = .endTxnSent → .registrationSent ∈ sinceReady history) :
    EndsSent (history ++ [observation]) := by
  intro before hprefix
  rcases List.prefix_concat_iff.mp hprefix with heq | hold
  · obtain ⟨rfl, hlast⟩ := List.append_inj' heq rfl
    exact hend (by simpa using hlast.symm)
  · exact h before hold

/-! ## The invariant -/

variable {τ : Type} [DecidableEq τ]

/-- The condition on a step. When a transaction is ended, the client has recorded something if
the coordinator applied a registration since the manager became ready; and the answer to a
registration arrives before the transaction in which it was made has ended. -/
def OnTime (state : State τ) : Event τ → Prop
  | .commit | .abort =>
      .registrationApplied ∈ sinceReady state.history → state.manager.isOngoing = true
  | .answered index => ∀ pending ∈ state.inFlight[index]?, pending.Registers →
      pending.transaction = state.transaction
  | _ => True

omit [DecidableEq τ] in
/-- `Registers` is decidable by the call. -/
instance (pending : Pending τ) : Decidable pending.Registers :=
  match h : pending.call with
  | .addPartitions _ | .sendOffsets => isTrue (by simp [Pending.Registers, h])
  | .txnOffsetCommit | .endTxn _ => isFalse (by simp [Pending.Registers, h])

/-- `OnTime` is decidable by the calls in flight. -/
instance (state : State τ) (event : Event τ) : Decidable (OnTime state event) :=
  match event with
  | .commit | .abort => inferInstanceAs (Decidable (_ → _))
  | .answered index =>
      inferInstanceAs (Decidable (∀ pending ∈ state.inFlight[index]?, _ → _))
  | .beginTransaction | .addPartitionsToTransaction _ | .sendOffsets _ _ | .found _ | .applied _
  | .failed _ _ => isTrue trivial

/-- What is recorded, in flight and observed fits together. -/
structure Accounted (state : State τ) : Prop where
  sound : Sound state ∨ Stuck state
  past : ∀ pending ∈ state.inFlight, pending.transaction ≤ state.transaction
  /-- Between transactions the record is empty, and no registration of the coming one is
  in flight. -/
  idle : state.manager.state = .ready → state.manager = Manager.fresh ∧
    ∀ pending ∈ state.inFlight, pending.Registers → pending.transaction ≠ state.transaction
  ownSent : ∀ pending ∈ state.inFlight, pending.Registers →
    pending.transaction = state.transaction → pending.stage ≠ .lookup →
    .registrationSent ∈ sinceReady state.history
  /-- What is recorded belongs to the current transaction. -/
  ongoing : state.manager.isOngoing = true →
    .recorded state.transaction ∈ state.history ∧
    .registrationSent ∈ sinceReady state.history
  ending : ∀ pending ∈ state.inFlight, pending.isEnd = true →
    .registrationSent ∈ sinceReady state.history ∧
    (pending.stage ≠ .lookup → .endTxnSent ∈ sinceReady state.history)
  endsApplied : EndsApplied state.history
  endsSent : EndsSent state.history

omit [DecidableEq τ] in
/-- A new manager has nothing to account for. -/
theorem accounted_initial : Accounted (State.initial : State τ) := by
  refine ⟨Or.inl (Or.inl ⟨Or.inl rfl, rfl⟩), by simp [State.initial], fun _ => ⟨rfl, ?_⟩,
    by simp [State.initial], by simp [State.initial], by simp [State.initial], ?_, ?_⟩
  · simp [State.initial]
  · intro before hprefix
    simp [State.initial] at hprefix
  · intro before hprefix
    simp [State.initial] at hprefix

section Steps

variable {state : State τ}

omit [DecidableEq τ] in
/-- Nothing is ending the transaction while the manager is in it. -/
theorem Accounted.not_isEnd (h : Accounted state)
    (hstate : state.manager.state = .transacting) :
    ∀ pending ∈ state.inFlight, pending.isEnd = false := by
  have hnone : endings state = 0 := by
    rcases h.sound with (⟨-, hzero⟩ | ⟨hother, -⟩) | hstuck
    · exact hzero
    · simp [hstate] at hother
    · exact hstuck.2
  intro pending hmem
  simpa using List.countP_eq_zero.mp hnone pending hmem

omit [DecidableEq τ] in
/-- The manager becomes ready with nothing left that ends a transaction. -/
theorem Accounted.ready (h : Accounted state) {inFlight : List (Pending τ)}
    (hsub : ∀ pending ∈ inFlight, pending ∈ state.inFlight)
    (hnone : ∀ pending ∈ inFlight, pending.isEnd = false)
    (happlied : .registrationApplied ∈ sinceReady state.history →
      .endTxnSent ∈ sinceReady state.history) :
    Accounted ({ manager := Manager.fresh, inFlight := inFlight
                 transaction := state.transaction + 1
                 history := state.history ++ [.ready] } : State τ) := by
  have hpast : ∀ pending ∈ inFlight, pending.transaction < state.transaction + 1 :=
    fun pending hmem => Nat.lt_succ_of_le (h.past pending (hsub pending hmem))
  refine ⟨Or.inl (Or.inl ⟨Or.inl rfl, ?_⟩), ?_, ?_, ?_, by simp, ?_, ?_, ?_⟩
  · rw [endings, List.countP_eq_zero]
    intro pending hmem
    simp [hnone pending hmem]
  · intro pending hmem
    exact (hpast pending hmem).le
  · intro _
    exact ⟨rfl, fun pending hmem _ => (hpast pending hmem).ne⟩
  · intro pending hmem _ heq
    exact absurd heq (hpast pending hmem).ne
  · intro pending hmem hend
    simp [hnone pending hmem] at hend
  · exact h.endsApplied.append fun _ => happlied
  · exact h.endsSent.append (by simp)

omit [DecidableEq τ] in
/-- A step that leaves the manager and the transaction alone. The calls in flight are those from
before, or one that moved on; at most one observation is made. -/
theorem Accounted.frame (h : Accounted state) {next : State τ}
    (hsound : Sound next ∨ Stuck next) (hmanager : next.manager = state.manager)
    (htransaction : next.transaction = state.transaction)
    (hhistory : next.history = state.history ∨
      ∃ observation, observation ≠ .ready ∧
        (observation = .endTxnSent → .registrationSent ∈ sinceReady state.history) ∧
        next.history = state.history ++ [observation])
    (hcalls : ∀ pending ∈ next.inFlight, pending ∈ state.inFlight ∨
      pending.transaction ≤ state.transaction ∧
      (pending.Registers → pending.transaction = state.transaction →
        state.manager.state ≠ .ready ∧ (pending.stage ≠ .lookup →
          .registrationSent ∈ sinceReady next.history)) ∧
      (pending.isEnd = true → .registrationSent ∈ sinceReady next.history ∧
        (pending.stage ≠ .lookup → .endTxnSent ∈ sinceReady next.history))) :
    Accounted next := by
  -- no step of a call makes the manager ready, so nothing is forgotten
  have hmono : ∀ {observation}, observation ∈ sinceReady state.history →
      observation ∈ sinceReady next.history := by
    intro observation hmem
    rcases hhistory with hsame | ⟨other, hother, -, hgrown⟩
    · rw [hsame]
      exact hmem
    · rw [hgrown]
      exact mem_sinceReady_append hother hmem
  have hkept : ∀ {observation}, observation ∈ state.history → observation ∈ next.history := by
    intro observation hmem
    rcases hhistory with hsame | ⟨other, -, -, hgrown⟩
    · rw [hsame]
      exact hmem
    · rw [hgrown]
      exact List.mem_append_left _ hmem
  refine ⟨hsound, ?_, ?_, ?_, ?_, ?_, ?_, ?_⟩
  · intro pending hmem
    rw [htransaction]
    rcases hcalls pending hmem with hold | ⟨hpast, -, -⟩
    · exact h.past pending hold
    · exact hpast
  · intro hready
    rw [hmanager] at hready ⊢
    refine ⟨(h.idle hready).1, fun pending hmem hregisters => ?_⟩
    rw [htransaction]
    rcases hcalls pending hmem with hold | ⟨-, hown, -⟩
    · exact (h.idle hready).2 pending hold hregisters
    · exact fun heq => (hown hregisters heq).1 hready
  · intro pending hmem hregisters heq hstage
    rw [htransaction] at heq
    rcases hcalls pending hmem with hold | ⟨-, hown, -⟩
    · exact hmono (h.ownSent pending hold hregisters heq hstage)
    · exact (hown hregisters heq).2 hstage
  · intro hongoing
    rw [hmanager] at hongoing
    obtain ⟨hrecorded, hsent⟩ := h.ongoing hongoing
    rw [htransaction]
    exact ⟨hkept hrecorded, hmono hsent⟩
  · intro pending hmem hend
    rcases hcalls pending hmem with hold | ⟨-, -, hown⟩
    · obtain ⟨hsent, hended⟩ := h.ending pending hold hend
      exact ⟨hmono hsent, fun hstage => hmono (hended hstage)⟩
    · exact hown hend
  · rcases hhistory with hsame | ⟨other, hother, -, hgrown⟩
    · rw [hsame]
      exact h.endsApplied
    · rw [hgrown]
      exact h.endsApplied.append fun heq => absurd heq hother
  · rcases hhistory with hsame | ⟨other, -, hend, hgrown⟩
    · rw [hsame]
      exact h.endsSent
    · rw [hgrown]
      exact h.endsSent.append hend

omit [DecidableEq τ] in
/-- A registration is answered while its transaction goes on. -/
theorem Accounted.record (h : Accounted state) {next : State τ} {pending : Pending τ}
    (hmem : pending ∈ state.inFlight) (hregisters : pending.Registers)
    (happlied : pending.stage = .applied) (hown : pending.transaction = state.transaction)
    (hsound : Sound next ∨ Stuck next) (hstate : next.manager.state = state.manager.state)
    (htransaction : next.transaction = state.transaction)
    (hhistory : next.history = state.history ++ [.recorded pending.transaction])
    (hcalls : ∀ other ∈ next.inFlight, other ∈ state.inFlight ∨
      other.transaction ≤ state.transaction ∧ ¬ other.Registers ∧ other.isEnd = false) :
    Accounted next := by
  have hnotReady : state.manager.state ≠ .ready := fun hready =>
    (h.idle hready).2 pending hmem hregisters hown
  have hsent := h.ownSent pending hmem hregisters hown (by simp [happlied])
  have hmono : ∀ {observation}, observation ∈ sinceReady state.history →
      observation ∈ sinceReady next.history := by
    intro observation hobserved
    rw [hhistory]
    exact mem_sinceReady_append (by simp) hobserved
  refine ⟨hsound, ?_, ?_, ?_, ?_, ?_, ?_, ?_⟩
  · intro other hother
    rw [htransaction]
    rcases hcalls other hother with hold | ⟨hpast, -, -⟩
    · exact h.past other hold
    · exact hpast
  · intro hready
    exact absurd (hstate.symm.trans hready) hnotReady
  · intro _ _ _ _ _
    exact hmono hsent
  · intro _
    rw [htransaction, hhistory, ← hown]
    exact ⟨by simp, mem_sinceReady_append (by simp) hsent⟩
  · intro other hother hend
    rcases hcalls other hother with hold | ⟨-, -, hnotEnd⟩
    · obtain ⟨hregistered, hended⟩ := h.ending other hold hend
      exact ⟨hmono hregistered, fun hstage => hmono (hended hstage)⟩
    · simp [hnotEnd] at hend
  · rw [hhistory]
    exact h.endsApplied.append (by simp)
  · rw [hhistory]
    exact h.endsSent.append (by simp)

/-- A call resumes on time. -/
theorem Accounted.resume (h : Accounted state) {index : Nat} {pending : Pending τ}
    (hpending : state.inFlight[index]? = some pending) (happlied : pending.stage = .applied)
    (hontime : pending.Registers → pending.transaction = state.transaction) :
    Accounted (state.resume index pending) := by
  have hmem := List.mem_of_getElem? hpending
  have hsound : Sound (state.resume index pending) ∨ Stuck (state.resume index pending) := by
    obtain ⟨hsound, hstuck⟩ := resume_sound hpending
    exact h.sound.imp hsound hstuck
  cases hcall : pending.call with
  | addPartitions collected =>
      have hregisters : pending.Registers := by simp [Pending.Registers, hcall]
      refine h.record hmem hregisters happlied (hontime hregisters) hsound ?_ ?_ ?_ ?_
      · simp [State.resume, hcall, recordPartitions_frame]
      · simp [State.resume, hcall]
      · simp [State.resume, hcall]
      · intro other hother
        simp only [State.resume, hcall] at hother
        exact Or.inl (List.mem_of_mem_eraseIdx hother)
  | sendOffsets =>
      have hregisters : pending.Registers := by simp [Pending.Registers, hcall]
      refine h.record hmem hregisters happlied (hontime hregisters) hsound ?_ ?_ ?_ ?_
      · simp [State.resume, hcall]
      · simp [State.resume, hcall]
      · simp [State.resume, hcall]
      · intro other hother
        simp only [State.resume, hcall] at hother
        rcases List.mem_or_eq_of_mem_set hother with hold | rfl
        · exact Or.inl hold
        · exact Or.inr ⟨h.past pending hmem, id, rfl⟩
  | txnOffsetCommit =>
      refine h.frame hsound ?_ ?_ (Or.inl ?_) ?_
      · simp [State.resume, hcall]
      · simp [State.resume, hcall]
      · simp [State.resume, hcall]
      · intro other hother
        simp only [State.resume, hcall] at hother
        exact Or.inl (List.mem_of_mem_eraseIdx hother)
  | endTxn commit =>
      have hend : pending.isEnd = true := by simp [Pending.isEnd, hcall]
      -- the end that returns is the only one in flight: none is left, and the manager becomes ready
      have hstuck : Stuck { state with inFlight := state.inFlight.eraseIdx index } := by
        rcases h.sound with hsoundState | hstuckState
        · exact hsoundState.stuck_eraseIdx hpending hend
        · simp [hstuckState.not_isEnd hpending] at hend
      have hready : state.resume index pending =
          { manager := Manager.fresh, inFlight := state.inFlight.eraseIdx index
            transaction := state.transaction + 1, history := state.history ++ [.ready] } := by
        rcases hstuck.1 with hstate | hstate <;>
          simp_all [State.resume, State.becomeReady, Manager.transitionTo, validTransitions,
            Manager.fresh]
      rw [hready]
      refine h.ready (fun other hother => List.mem_of_mem_eraseIdx hother) ?_ ?_
      · intro other hother
        simpa using List.countP_eq_zero.mp hstuck.2 other hother
      · exact fun _ => (h.ending pending hmem hend).2 (by simp [happlied])

/-- Every step that is on time keeps the account. -/
theorem accounted_step (state : State τ) (event : Event τ) (next : State τ)
    (h : Accounted state) (hontime : OnTime state event) (hstep : step state event = some next) :
    Accounted next := by
  have hsound := sound_or_stuck_step h.sound hstep
  cases step_cases hstep with
  | begun hready =>
      obtain ⟨hfresh, hnone⟩ := h.idle hready
      refine ⟨hsound, h.past, by simp, h.ownSent, ?_, h.ending, h.endsApplied, h.endsSent⟩
      intro hongoing
      rw [hfresh] at hongoing
      simp [Manager.isOngoing, Manager.fresh, InsertionMap.empty] at hongoing
  | called manager new hstate hnext hongoing hnew _ _ =>
      refine ⟨hsound, ?_, ?_, ?_, ?_, ?_, h.endsApplied, h.endsSent⟩
      · intro pending hmem
        rcases List.mem_append.mp hmem with hold | hpending
        · exact h.past pending hold
        · exact (hnew pending hpending).2.2.le
      · intro hready
        simp [hnext] at hready
      · intro pending hmem hregisters hown hstage
        rcases List.mem_append.mp hmem with hold | hpending
        · exact h.ownSent pending hold hregisters hown hstage
        · exact absurd (hnew pending hpending).2.1 hstage
      · intro hrecorded
        exact h.ongoing (hongoing.symm.trans hrecorded)
      · intro pending hmem hend
        rcases List.mem_append.mp hmem with hold | hpending
        · exact h.ending pending hold hend
        · simp [(hnew pending hpending).1.isEnd_eq] at hend
  | endedAtOnce commit hevent hstate hnothing =>
      refine h.ready (fun _ hmem => hmem) (h.not_isEnd hstate) ?_
      -- `commit` and `abort` skip the coordinator only if no partition is recorded
      intro happlied
      have hongoing : state.manager.isOngoing = true := by
        cases commit <;> (subst hevent; exact hontime happlied)
      simp [hongoing] at hnothing
  | ending commit _ hstate hongoing =>
      refine ⟨hsound, ?_, ?_, ?_, h.ongoing, ?_, h.endsApplied, h.endsSent⟩
      · intro pending hmem
        rcases List.mem_append.mp hmem with hold | hpending
        · exact h.past pending hold
        · cases List.mem_singleton.mp hpending
          exact le_rfl
      · intro hready
        cases commit <;> simp [endingState] at hready
      · intro pending hmem hregisters hown hstage
        rcases List.mem_append.mp hmem with hold | hpending
        · exact h.ownSent pending hold hregisters hown hstage
        · cases List.mem_singleton.mp hpending
          exact absurd rfl hstage
      · intro pending hmem hend
        rcases List.mem_append.mp hmem with hold | hpending
        · exact h.ending pending hold hend
        · cases List.mem_singleton.mp hpending
          -- the end is sent because something is recorded, and that was registered before
          exact ⟨(h.ongoing hongoing).2, fun hstage => absurd rfl hstage⟩
  | @sent index pending hpending hstage =>
      have hmem := List.mem_of_getElem? hpending
      refine h.frame hsound (by simp) (by simp) ?_ ?_
      · cases hcall : pending.call with
        | addPartitions _ => exact Or.inr ⟨.registrationSent, by simp, by simp, rfl⟩
        | sendOffsets => exact Or.inr ⟨.registrationSent, by simp, by simp, rfl⟩
        | txnOffsetCommit => exact Or.inl rfl
        | endTxn commit =>
            refine Or.inr ⟨.endTxnSent, by simp, fun _ => ?_, rfl⟩
            exact (h.ending pending hmem (by simp [Pending.isEnd, hcall])).1
      · intro other hother
        rw [observeSent_inFlight] at hother
        rcases List.mem_or_eq_of_mem_set hother with hold | rfl
        · exact Or.inl hold
        · refine Or.inr ⟨h.past pending hmem, ?_, ?_⟩
          · intro hregisters hown
            refine ⟨fun hready => (h.idle hready).2 pending hmem hregisters hown, fun _ => ?_⟩
            cases hcall : pending.call with
            | addPartitions _ => simp [State.observeSent, sinceReady_append]
            | sendOffsets => simp [State.observeSent, sinceReady_append]
            | txnOffsetCommit => simp [Pending.Registers, hcall] at hregisters
            | endTxn _ => simp [Pending.Registers, hcall] at hregisters
          · intro hend
            cases hcall : pending.call with
            | addPartitions _ => simp [Pending.isEnd, hcall] at hend
            | sendOffsets => simp [Pending.isEnd, hcall] at hend
            | txnOffsetCommit => simp [Pending.isEnd, hcall] at hend
            | endTxn _ =>
                have hregistered := (h.ending pending hmem hend).1
                simp [State.observeSent, sinceReady_append, hregistered]
  | @applied index pending hpending hstage =>
      have hmem := List.mem_of_getElem? hpending
      have hmono : ∀ {observation}, observation ∈ sinceReady state.history →
          observation ∈ sinceReady (State.observeApplied { state with
            inFlight := state.inFlight.set index { pending with stage := .applied } }
            pending.call).history := by
        intro observation hobserved
        cases pending.call <;>
          first
          | exact mem_sinceReady_append (by simp) hobserved
          | exact hobserved
      refine h.frame hsound (by simp) (by simp) ?_ ?_
      · cases pending.call with
        | addPartitions _ => exact Or.inr ⟨.registrationApplied, by simp, by simp, rfl⟩
        | sendOffsets => exact Or.inr ⟨.registrationApplied, by simp, by simp, rfl⟩
        | txnOffsetCommit => exact Or.inl rfl
        | endTxn _ => exact Or.inl rfl
      · intro other hother
        rw [observeApplied_inFlight] at hother
        rcases List.mem_or_eq_of_mem_set hother with hold | rfl
        · exact Or.inl hold
        · refine Or.inr ⟨h.past pending hmem, ?_, ?_⟩
          · intro hregisters hown
            refine ⟨fun hready => (h.idle hready).2 pending hmem hregisters hown, fun _ => ?_⟩
            exact hmono (h.ownSent pending hmem hregisters hown (by simp [hstage]))
          · intro hend
            obtain ⟨hregistered, hended⟩ := h.ending pending hmem hend
            exact ⟨hmono hregistered, fun _ => hmono (hended (by simp [hstage]))⟩
  | resumed pending hpending happlied =>
      exact h.resume hpending happlied (hontime pending hpending)
  | failed pending hpending =>
      refine h.frame hsound rfl rfl (Or.inl rfl) ?_
      exact fun other hother => Or.inl (List.mem_of_mem_eraseIdx hother)
  | retried pending hpending hcall =>
      refine h.frame hsound rfl rfl (Or.inl rfl) ?_
      intro other hother
      rcases List.mem_or_eq_of_mem_set hother with hold | rfl
      · exact Or.inl hold
      · refine Or.inr ⟨h.past pending (List.mem_of_getElem? hpending), ?_, ?_⟩
        · intro hregisters
          simp [Pending.Registers, hcall] at hregisters
        · intro hend
          simp [Pending.isEnd, hcall] at hend

end Steps

/-- Along every run on time: `EndTxn` is sent for every transaction of which the coordinator
applied a registration and for none of which none was sent; and the record is empty between
transactions and until a registration of the current one is recorded. -/
theorem endTxn_exact (events : List (Event τ)) (final : State τ)
    (hrun : run step State.initial events = some final)
    (hontime : Meets step OnTime State.initial events) :
    EndsApplied final.history ∧ EndsSent final.history ∧
    (final.manager.state = .ready → final.manager = Manager.fresh) ∧
    (final.manager.isOngoing = true → .recorded final.transaction ∈ final.history) := by
  have haccounted := invariant_of_meets accounted_step accounted_initial hontime hrun
  exact ⟨haccounted.endsApplied, haccounted.endsSent, fun hready => (haccounted.idle hready).1,
    fun hongoing => (haccounted.ongoing hongoing).1⟩

/-! ## A lost answer -/

/-- A transaction with one registered partition that is committed. -/
def committedTransaction : List (Event String) :=
  [.beginTransaction, .addPartitionsToTransaction [("topic", [0])], .found 0, .applied 0,
    .answered 0, .commit, .found 0, .applied 0, .answered 0]

/-- A transaction whose only registration is applied, with the answer lost, and that is then
aborted. -/
def lostRegistration : List (Event String) :=
  [.beginTransaction, .addPartitionsToTransaction [("topic", [0])], .found 0, .applied 0,
    .failed 0 false, .abort]

/-- `EndTxn` ends the committed transaction. -/
theorem endTxn_exact_committed :
    ∃ final : State String, run step State.initial committedTransaction = some final ∧
      EndsApplied final.history ∧ final.manager = Manager.fresh := by
  have hend : ((run step State.initial committedTransaction).map fun final : State String =>
      final.manager.state) = some .ready := by
    decide
  obtain ⟨final, hrun, hready⟩ := Option.map_eq_some_iff.mp hend
  obtain ⟨happlied, -, hfresh, -⟩ := endTxn_exact _ _ hrun (by decide)
  exact ⟨final, hrun, happlied, hfresh hready⟩

/-- The manager becomes ready without `EndTxn` although the coordinator applied the
registration. -/
theorem endTxn_omitted_after_lostRegistration :
    ∃ final : State String, run step State.initial lostRegistration = some final ∧
      final.manager.state = .ready ∧ ¬ EndsApplied final.history := by
  have hend : ((run step State.initial lostRegistration).map fun final : State String =>
      (final.manager.state, final.history)) =
      some (.ready, [.registrationSent, .registrationApplied, .ready]) := by
    decide
  obtain ⟨final, hrun, heq⟩ := Option.map_eq_some_iff.mp hend
  simp only [Prod.mk.injEq] at heq
  refine ⟨final, hrun, heq.1, fun hends => ?_⟩
  rw [heq.2] at hends
  have hmissing := hends [.registrationSent, .registrationApplied] (by simp) (by decide)
  exact absurd hmissing (by decide)

end KafkaJs.Producer.EosManager
