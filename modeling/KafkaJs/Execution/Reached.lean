import KafkaJs.Execution.Run

/-!
# Reached states

A state is `Reached` if some run whose events all meet a condition ends there. A machine that is
made of others goes through states that these reach: a step of the whole is a step of one part, by
which `Reached.step` extends the run of that part, and the events of the other parts do not show.
-/

namespace KafkaJs.Execution

variable {σ ε : Type} {step : σ → ε → Option σ} {ok : σ → ε → Prop}

/-- A run whose events all meet `ok` ends in the state. -/
def Reached (step : σ → ε → Option σ) (ok : σ → ε → Prop) (initial state : σ) : Prop :=
  ∃ events, run step initial events = some state ∧ Meets step ok initial events

/-- The side condition of a run that ends with an event. -/
theorem meets_concat {state last : σ} {event : ε} {events : List ε}
    (hrun : run step state events = some last) (hmeets : Meets step ok state events)
    (hok : ok last event) : Meets step ok state (events ++ [event]) := by
  induction events generalizing state with
  | nil =>
      cases hrun
      refine ⟨hok, ?_⟩
      split <;> exact trivial
  | cons first events ih =>
      obtain ⟨next, hstep, hrest⟩ := run_cons_eq_some.mp hrun
      obtain ⟨hfirst, hnext⟩ := (meets_cons hstep).mp hmeets
      exact (meets_cons hstep).mpr ⟨hfirst, ih hrest hnext⟩

namespace Reached

variable {initial state next : σ}

/-- A state is reached from itself. -/
theorem refl (initial : σ) : Reached step ok initial initial := ⟨[], rfl, trivial⟩

/-- One more step. -/
theorem extend (h : Reached step ok initial state) (event : ε) (hok : ok state event)
    (hstep : step state event = some next) : Reached step ok initial next := by
  obtain ⟨events, hrun, hmeets⟩ := h
  exact ⟨events ++ [event], run_concat_eq_some.mpr ⟨state, hrun, hstep⟩,
    meets_concat hrun hmeets hok⟩

end Reached

end KafkaJs.Execution
