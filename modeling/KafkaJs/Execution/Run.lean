import Mathlib.Logic.Basic

/-!
# Runs of event-driven machines

A machine is a partial step function `step : σ → ε → Option σ`; an event that is not enabled in
a state has no successor there. `run` fires a list of events. `Meets` says that every event of a
run satisfies a side condition in the state in which it fires, and `invariant_of_meets` is the
rule by which a property preserved by every such step holds at the end of the run. Since the
event list is arbitrary, a property proved this way holds in every state that is reached.
-/

namespace KafkaJs.Execution

variable {σ ε : Type}

/-- Fire the events in order; a disabled event stops the run. -/
def run (step : σ → ε → Option σ) : σ → List ε → Option σ
  | state, [] => some state
  | state, event :: events => step state event >>= fun next => run step next events

/-- Every event of the run satisfies `ok` in the state in which it fires. -/
def Meets (step : σ → ε → Option σ) (ok : σ → ε → Prop) : σ → List ε → Prop
  | _, [] => True
  | state, event :: events =>
      ok state event ∧
        match step state event with
        | some next => Meets step ok next events
        | none => True

/-- `Meets` is decided by replaying the run. -/
instance decidableMeets (step : σ → ε → Option σ) (ok : σ → ε → Prop)
    [∀ state event, Decidable (ok state event)] :
    ∀ state events, Decidable (Meets step ok state events)
  | _, [] => isTrue trivial
  | state, event :: events =>
      have : Decidable (match step state event with
          | some next => Meets step ok next events
          | none => True) :=
        match step state event with
        | some next => decidableMeets step ok next events
        | none => isTrue trivial
      inferInstanceAs (Decidable (_ ∧ _))

variable {step : σ → ε → Option σ} {ok : σ → ε → Prop}

/-- Without events the state stays. -/
@[simp] theorem run_nil (state : σ) : run step state [] = some state := rfl

/-- A nonempty completed run is a first step followed by a completed run. -/
theorem run_cons_eq_some {state final : σ} {event : ε} {events : List ε} :
    run step state (event :: events) = some final ↔
      ∃ next, step state event = some next ∧ run step next events = some final := by
  simp [run, Option.bind_eq_some_iff]

/-- A completed run in two parts is two completed runs, one after the other. -/
theorem run_append_eq_some {state final : σ} {first second : List ε} :
    run step state (first ++ second) = some final ↔
      ∃ middle, run step state first = some middle ∧ run step middle second = some final := by
  induction first generalizing state with
  | nil => simp
  | cons event events ih =>
      rw [List.cons_append, run_cons_eq_some]
      simp only [ih, run_cons_eq_some]
      constructor
      · rintro ⟨next, hfirst, middle, hevents, hsecond⟩
        exact ⟨middle, ⟨next, hfirst, hevents⟩, hsecond⟩
      · rintro ⟨middle, ⟨next, hfirst, hevents⟩, hsecond⟩
        exact ⟨next, hfirst, middle, hevents, hsecond⟩

/-- A completed run that ends with an event is a completed run followed by that step. -/
theorem run_concat_eq_some {state final : σ} {event : ε} {events : List ε} :
    run step state (events ++ [event]) = some final ↔
      ∃ last, run step state events = some last ∧ step last event = some final := by
  rw [run_append_eq_some]
  simp [run_cons_eq_some]

/-- The side condition of a nonempty run, along a step that fires. -/
theorem meets_cons {state next : σ} {event : ε} {events : List ε}
    (hstep : step state event = some next) :
    Meets step ok state (event :: events) ↔ ok state event ∧ Meets step ok next events := by
  simp [Meets, hstep]

/-- Events that satisfy the condition in all states satisfy it along a run. -/
theorem meets_of_forall {events : List ε} (h : ∀ event ∈ events, ∀ state, ok state event)
    (state : σ) : Meets step ok state events := by
  induction events generalizing state with
  | nil => exact trivial
  | cons event events ih =>
      refine ⟨h event List.mem_cons_self state, ?_⟩
      split
      · exact ih (fun other hother => h other (List.mem_cons_of_mem event hother)) _
      · exact trivial

/-- Two side conditions of a run hold along it together. -/
theorem meets_and {first second : σ → ε → Prop} {state : σ} {events : List ε}
    (hfirst : Meets step first state events) (hsecond : Meets step second state events) :
    Meets step (fun state event => first state event ∧ second state event) state events := by
  induction events generalizing state with
  | nil => exact trivial
  | cons event events ih =>
      refine ⟨⟨hfirst.1, hsecond.1⟩, ?_⟩
      cases hstep : step state event with
      | none => exact trivial
      | some next =>
          exact ih ((meets_cons hstep).mp hfirst).2 ((meets_cons hstep).mp hsecond).2

/-- A property that every step meeting `ok` preserves holds at the end of every run whose steps
all meet `ok`. -/
theorem invariant_of_meets {Inv : σ → Prop}
    (hpreserved : ∀ state event next, Inv state → ok state event →
      step state event = some next → Inv next)
    {state final : σ} {events : List ε} (hinit : Inv state)
    (hmeets : Meets step ok state events) (hrun : run step state events = some final) :
    Inv final := by
  induction events generalizing state with
  | nil =>
      cases hrun
      exact hinit
  | cons event events ih =>
      obtain ⟨next, hstep, hrest⟩ := run_cons_eq_some.mp hrun
      obtain ⟨hok, hnext⟩ := (meets_cons hstep).mp hmeets
      exact ih (hpreserved state event next hinit hok hstep) hnext hrest

/-- A property that every step preserves holds at the end of every run. -/
theorem invariant_of_run {Inv : σ → Prop}
    (hpreserved : ∀ state event next, Inv state → step state event = some next → Inv next)
    {state final : σ} {events : List ε} (hinit : Inv state)
    (hrun : run step state events = some final) : Inv final := by
  induction events generalizing state with
  | nil =>
      cases hrun
      exact hinit
  | cons event events ih =>
      obtain ⟨next, hstep, hrest⟩ := run_cons_eq_some.mp hrun
      exact ih (hpreserved state event next hinit hstep) hrest

/-- Two side conditions that agree in every state of a run hold along it together. -/
theorem meets_congr {Inv : σ → Prop} {first second : σ → ε → Prop}
    (hpreserved : ∀ state event next, Inv state → ok state event →
      step state event = some next → Inv next)
    (hagree : ∀ state event, Inv state → ok state event →
      (first state event ↔ second state event))
    {state : σ} {events : List ε} (hinit : Inv state) (hmeets : Meets step ok state events) :
    Meets step first state events ↔ Meets step second state events := by
  induction events generalizing state with
  | nil => exact Iff.rfl
  | cons event events ih =>
      have hevent := hagree state event hinit hmeets.1
      cases hstep : step state event with
      | none => simp [Meets, hstep, hevent]
      | some next =>
          obtain ⟨hok, hrest⟩ := (meets_cons hstep).mp hmeets
          rw [meets_cons hstep, meets_cons hstep, hevent,
            ih (hpreserved state event next hinit hok hstep) hrest]

end KafkaJs.Execution
