import Mathlib.Data.List.Basic

/-!
# Commands that keep their state when they throw

A command changes a state and returns a value or throws; what it changed before it throws stays
changed. `Ensures` is the judgement that a command started where `before` holds returns where
`after` holds or throws where `thrown` holds. The rules follow the way in which commands are put
together: `pure`, `>>=`, `modify`, `throw` and walking over a list.
-/

namespace KafkaJs.Execution

/-- A computation with a state that survives an exception. -/
abbrev Command (σ ε α : Type) := ExceptT ε (StateM σ) α

variable {σ ε α β : Type}

/-- The result of a command and the state that it leaves. -/
def Command.exec (command : Command σ ε α) (state : σ) : Except ε α × σ := command.run.run state

/-- A command after another one runs in the state that the first one leaves, unless that throws. -/
theorem Command.exec_bind (command : Command σ ε α) (next : α → Command σ ε β) (state : σ) :
    Command.exec (command >>= next) state =
      match Command.exec command state with
      | (.ok value, state) => Command.exec (next value) state
      | (.error error, state) => (.error error, state) := by
  show (ExceptT.bindCont next (Command.exec command state).1) (Command.exec command state).2 = _
  rcases Command.exec command state with ⟨error | value, state⟩
  · rfl
  · rfl

/-- A command that returns a value. -/
@[simp] theorem Command.exec_pure (value : α) (state : σ) :
    Command.exec (pure value : Command σ ε α) state = (.ok value, state) := rfl

/-- A command that throws. -/
@[simp] theorem Command.exec_throw (error : ε) (state : σ) :
    Command.exec (throw error : Command σ ε α) state = (.error error, state) := rfl

/-- A command that changes the state. -/
@[simp] theorem Command.exec_modify (f : σ → σ) (state : σ) :
    Command.exec (modify f : Command σ ε Unit) state = (.ok (), f state) := rfl

/-- A command that reads the state. -/
@[simp] theorem Command.exec_get (state : σ) :
    Command.exec (get : Command σ ε σ) state = (.ok state, state) := rfl

/-- A result as a command. -/
def Command.ofExcept (result : Except ε α) : Command σ ε α := ExceptT.mk (pure result)

/-- A result as a command. -/
@[simp] theorem Command.exec_ofExcept (result : Except ε α) (state : σ) :
    Command.exec (Command.ofExcept result) state = (result, state) := rfl

/-- A handler runs in the state that the exception leaves. -/
theorem Command.exec_tryCatch (command : Command σ ε α) (handler : ε → Command σ ε α) (state : σ) :
    Command.exec (tryCatch command handler) state =
      match Command.exec command state with
      | (.ok value, state) => (.ok value, state)
      | (.error error, state) => Command.exec (handler error) state := by
  show (match (Command.exec command state).1 with
    | .ok value => pure (.ok value)
    | .error error => handler error : StateM σ (Except ε α)) (Command.exec command state).2 = _
  rcases Command.exec command state with ⟨error | value, state⟩
  · rfl
  · rfl

/-- A command that sets the state. -/
@[simp] theorem Command.exec_set (next state : σ) :
    Command.exec (set next : Command σ ε PUnit) state = (.ok (), next) := rfl

/-- From a state where `before` holds, the command returns where `after` holds or throws where
`thrown` holds. -/
def Ensures (before : σ → Prop) (command : Command σ ε α) (after : α → σ → Prop)
    (thrown : ε → σ → Prop) : Prop :=
  ∀ state, before state →
    match Command.exec command state with
    | (.ok value, state) => after value state
    | (.error error, state) => thrown error state

variable {before : σ → Prop} {command : Command σ ε α} {after : α → σ → Prop}
  {thrown : ε → σ → Prop}

/-- The rule for a returned value. -/
theorem ensures_pure {value : α} (h : ∀ state, before state → after value state) :
    Ensures before (pure value) after thrown := h

/-- The rule for a change of the state. -/
theorem ensures_modify {f : σ → σ} {after : Unit → σ → Prop}
    (h : ∀ state, before state → after () (f state)) :
    Ensures before (modify f) after thrown := h

/-- A command ensures what follows from what it ensures. -/
theorem Ensures.imp {after' : α → σ → Prop} {thrown' : ε → σ → Prop}
    (h : Ensures before command after thrown)
    (hafter : ∀ value state, after value state → after' value state)
    (hthrown : ∀ error state, thrown error state → thrown' error state) :
    Ensures before command after' thrown' := by
  intro state hbefore
  have hholds := h state hbefore
  rcases hexec : Command.exec command state with ⟨error | value, state⟩
  · rw [hexec] at hholds
    exact hthrown error state hholds
  · rw [hexec] at hholds
    exact hafter value state hholds

/-- One command after another. -/
theorem Ensures.bind {middle : α → σ → Prop} {next : α → Command σ ε β} {after : β → σ → Prop}
    (hfirst : Ensures before command middle thrown)
    (hnext : ∀ value, Ensures (middle value) (next value) after thrown) :
    Ensures before (command >>= next) after thrown := by
  intro state hbefore
  have hmiddle := hfirst state hbefore
  rw [Command.exec_bind]
  rcases hexec : Command.exec command state with ⟨error | value, state⟩
  · rwa [hexec] at hmiddle
  · rw [hexec] at hmiddle
    exact hnext value state hmiddle

/-- The rule for an error. -/
theorem ensures_throw {error : ε} (h : ∀ state, before state → thrown error state) :
    Ensures before (throw error : Command σ ε α) after thrown := h

/-- The rule for a result. -/
theorem ensures_ofExcept {result : Except ε α}
    (hok : ∀ value, result = .ok value → ∀ state, before state → after value state)
    (herror : ∀ error, result = .error error → ∀ state, before state → thrown error state) :
    Ensures before (Command.ofExcept result) after thrown := by
  intro state hbefore
  rw [Command.exec_ofExcept]
  cases result with
  | error error => exact herror error rfl state hbefore
  | ok value => exact hok value rfl state hbefore

/-- A command whose exceptions are handled. -/
theorem Ensures.tryCatch {caught : ε → σ → Prop} {handler : ε → Command σ ε α}
    (hcommand : Ensures before command after caught)
    (hhandler : ∀ error, Ensures (caught error) (handler error) after thrown) :
    Ensures before (MonadExcept.tryCatch command handler) after thrown := by
  intro state hbefore
  have hcaught := hcommand state hbefore
  rw [Command.exec_tryCatch]
  rcases hexec : Command.exec command state with ⟨error | value, state⟩
  · rw [hexec] at hcaught
    exact hhandler error state hcaught
  · rwa [hexec] at hcaught

/-- Walking over a list, with what holds when `rest` is still to come. -/
theorem ensures_forM {body : β → Command σ ε PUnit} {invariant : List β → σ → Prop}
    (h : ∀ item rest, Ensures (invariant (item :: rest)) (body item) (fun _ => invariant rest)
      thrown) (items : List β) :
    Ensures (invariant items) (items.forM body) (fun _ => invariant []) thrown := by
  induction items with
  | nil => exact ensures_pure fun _ hstate => hstate
  | cons item items ih => exact (h item items).bind fun _ => ih

end KafkaJs.Execution
