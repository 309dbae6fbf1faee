import KafkaJs.Execution.Run
import Mathlib.Data.List.Basic

/-!
# The life of a consumer: run, stop, crash and restart

A consumer keeps one runner in a variable, together with its consumer group. `run` makes a runner,
which is running once it has joined the group. `stop` stops the runner of the variable, unless it
is not running yet, and forgets it; while a call of `stop` is under way, other calls share its
promise. A crash stops the consumer, disconnects it, asks the user whether to restart, and sets a
timer, which makes a new runner without looking at the variable.

`running_stopDuringStart` is a runner that starts to run after the consumer was stopped.
`staysStopped_of_orderly` says when a stopped consumer stays stopped and at most one runner runs:
runners finish to start, timers fire and crashes decide only where the variable still tells the
truth about them.

The machine lets anything happen between two steps, also between those that the code takes in one
turn of the event loop. `stopped` is read by the specification and not by the code: a call of
`stop` or `disconnect` by the user has done its work, and `run` has made no runner since.
-/

namespace KafkaJs.Consumer.Lifecycle

open Execution

/-- A runner: whether it is still starting, whether it is running, and whether its loop around the
fetch manager goes on. -/
structure Runner where
  starting : Bool
  running : Bool
  consuming : Bool
  deriving DecidableEq, Repr

/-- The shared promise of `stop`: it waits for a runner to stop, or its work is done and the promise
is about to be cleared. -/
inductive StopPromise where
  | none
  | awaiting (runner : Nat)
  | ending
  deriving DecidableEq, Repr

/-- Where a call of `onCrash` stands: it waits for `stop`, for the cluster to disconnect, or for
`restartOnFailure` to decide. -/
inductive CrashPhase where
  | stopping (retriable : Bool)
  | disconnecting (retriable : Bool)
  | deciding
  | ended
  deriving DecidableEq, Repr

/-- The consumer. `waiting` says that the user waits for the stop under way. Timers have
numbers. -/
structure State where
  runners : List Runner
  runner : Option Nat
  stopPromise : StopPromise
  waiting : Bool
  crashes : List CrashPhase
  timers : List Nat
  nextTimer : Nat
  restartTimeout : Option Nat
  stopped : Bool
  deriving DecidableEq, Repr

/-- What may happen next. Errors are known by whether they are retriable. -/
inductive Event where
  | run
  | stop
  | disconnect
  | joined (runner : Nat)
  | startFails (runner : Nat) (retriable : Bool)
  | fetchManagerEnds (runner : Nat)
  | crash (runner : Nat) (retriable : Bool)
  | runnerStopped
  | stopCleared
  | disconnected (crash : Nat) (ok : Bool)
  | decided (crash : Nat) (restart : Bool)
  | timer (timer : Nat)
  deriving DecidableEq, Repr

def initial : State :=
  { runners := []
    runner := none
    stopPromise := .none
    waiting := false
    crashes := []
    timers := []
    nextTimer := 0
    restartTimeout := none
    stopped := false }

namespace State

/-- `start` of `run`: a new runner in the variable, which begins to join the group. -/
def start (consumer : State) : State :=
  { consumer with
    runners := consumer.runners ++ [⟨true, false, false⟩]
    runner := some consumer.runners.length }

/-- `clearTimeout(restartTimeout)`. -/
def clearRestart (consumer : State) : State :=
  { consumer with
    timers := consumer.timers.filter fun timer => some timer ≠ consumer.restartTimeout }

/-- `stop`: a call begins, or shares the promise of the call under way. A runner that is running
stops at once, and the call waits for its loop to end. -/
def stop (consumer : State) : State :=
  match consumer.stopPromise, consumer.runner with
  | .none, none => { consumer.clearRestart with stopPromise := .ending }
  | .none, some runner =>
      { consumer with
        runners := consumer.runners.modify runner fun state => { state with running := false }
        stopPromise := .awaiting runner }
  | .awaiting _, _ | .ending, _ => consumer

/-- `stop` by the user, on its own or in `disconnect`. Its work is done at once if there is no
runner, or if it shares a promise whose work is done. -/
def userStop (consumer : State) : State :=
  match consumer.stop with
  | { stopPromise := .ending, .. } => { consumer.stop with stopped := true }
  | _ => { consumer.stop with waiting := true }

/-- `onCrash` up to its first await. -/
def onCrash (consumer : State) (retriable : Bool) : State :=
  { consumer.stop with crashes := consumer.crashes ++ [.stopping retriable] }

end State

/-- The promise of `stop` settles: a crash that waited for it goes on. -/
def CrashPhase.stopSettles : CrashPhase → CrashPhase
  | .stopping retriable => .disconnecting retriable
  | phase => phase

/-- One event. -/
def step (consumer : State) : Event → Option State
  | .run =>
      -- a consumer group in the variable means that the consumer runs already
      if consumer.runner.isSome then some consumer
      else some { consumer.start with stopped := false }
  | .stop | .disconnect => some consumer.userStop
  | .joined runner =>
      match consumer.runners[runner]? with
      | some { starting := true, .. } =>
          some { consumer with runners := consumer.runners.set runner ⟨false, true, true⟩ }
      | _ => none
  | .startFails runner retriable =>
      match consumer.runners[runner]? with
      | some { starting := true, .. } =>
          some { consumer.onCrash retriable with
            runners := (consumer.onCrash retriable).runners.modify runner fun state =>
              { state with starting := false } }
      | _ => none
  | .fetchManagerEnds runner =>
      match consumer.runners[runner]? with
      | some { running, consuming := true, .. } =>
          some { consumer with
            runners := consumer.runners.modify runner fun state =>
              { state with consuming := running } }
      | _ => none
  | .crash runner retriable =>
      match consumer.runners[runner]? with
      | some { consuming := true, .. } =>
          -- `onCrash` comes first, and stops the runner of the variable
          some { consumer.onCrash retriable with
            runners := (consumer.onCrash retriable).runners.modify runner fun state =>
              { state with running := false, consuming := false } }
      | _ => none
  | .runnerStopped =>
      match consumer.stopPromise with
      | .awaiting _ =>
          some { consumer.clearRestart with
            runner := none
            stopPromise := .ending
            waiting := false
            stopped := consumer.stopped || consumer.waiting }
      | .none | .ending => none
  | .stopCleared =>
      match consumer.stopPromise with
      | .ending =>
          some { consumer with
            stopPromise := .none
            crashes := consumer.crashes.map CrashPhase.stopSettles }
      | .none | .awaiting _ => none
  | .disconnected crash ok =>
      match consumer.crashes[crash]? with
      | some (.disconnecting retriable) =>
          some { consumer with
            crashes := consumer.crashes.set crash
              (if ok && retriable then .deciding else .ended) }
      | _ => none
  | .decided crash restart =>
      match consumer.crashes[crash]? with
      | some .deciding =>
          let consumer := { consumer with crashes := consumer.crashes.set crash .ended }
          if restart then
            some { consumer with
              timers := consumer.timers ++ [consumer.nextTimer]
              nextTimer := consumer.nextTimer + 1
              restartTimeout := some consumer.nextTimer }
          else some consumer
      | _ => none
  | .timer timer =>
      if timer ∈ consumer.timers then
        some { consumer.start with timers := consumer.timers.filter (· ≠ timer) }
      else none

/-! ## What should hold -/

/-- The runner at the index is running. -/
def IsRunning (runners : List Runner) (index : Nat) : Prop :=
  ∃ state, runners[index]? = some state ∧ state.running = true

/-- At most one runner is running; and after a stop no runner is, and no restart is scheduled. -/
structure StaysStopped (consumer : State) : Prop where
  exclusive : ∀ first second, IsRunning consumer.runners first →
    IsRunning consumer.runners second → first = second
  stopped : consumer.stopped = true →
    (∀ runner, ¬ IsRunning consumer.runners runner) ∧ consumer.timers = []

/-- A runner joins the group only while it is the one in the variable and no stop waits for it. A
restart is decided only if the consumer was not stopped in the meantime and no other restart is
scheduled, and its timer fires only while there is no runner in the variable. A stop does not
share a promise whose work was done before a runner was made or a restart was scheduled. -/
def Orderly (consumer : State) : Event → Prop
  | .joined runner =>
      consumer.runner = some runner ∧ consumer.stopPromise ≠ .awaiting runner
  | .decided _ true => consumer.stopped = false ∧ consumer.timers = []
  | .timer _ => consumer.runner = none
  | .stop | .disconnect =>
      consumer.stopPromise = .ending → consumer.runner = none ∧ consumer.timers = []
  | _ => True

/-- `Orderly` is decidable event by event. -/
instance (consumer : State) : ∀ event, Decidable (Orderly consumer event)
  | .joined _ | .decided _ true => inferInstanceAs (Decidable (_ ∧ _))
  | .timer _ => inferInstanceAs (Decidable (_ = _))
  | .stop | .disconnect => inferInstanceAs (Decidable (_ → _))
  | .run | .startFails _ _ | .fetchManagerEnds _ | .crash _ _ | .runnerStopped | .stopCleared
  | .disconnected _ _ | .decided _ false => isTrue trivial

/-! ## The invariant -/

/-- Only the runner in the variable is running, unless the stop under way waits for it; and a
stopped consumer has neither a runner nor a timer. -/
structure Sound (consumer : State) : Prop where
  current : ∀ runner, IsRunning consumer.runners runner → consumer.runner = some runner
  awaiting : ∀ runner, consumer.stopPromise = .awaiting runner →
    consumer.runner = some runner ∧ ¬ IsRunning consumer.runners runner
  stopped : consumer.stopped = true → consumer.runner = none ∧ consumer.timers = []
  timers : consumer.timers = [] ∨
    ∃ timer, consumer.timers = [timer] ∧ consumer.restartTimeout = some timer

variable {consumer next : State} {event : Event}

/-- A consumer that has not been run is sound. -/
theorem Sound.initial : Sound Lifecycle.initial := by
  refine ⟨?_, nofun, nofun, Or.inl rfl⟩
  rintro runner ⟨state, ⟨⟩, -⟩

/-- A step that starts no runner, and makes none run. -/
theorem Sound.quiet (h : Sound consumer)
    (hrunning : ∀ runner, IsRunning next.runners runner → IsRunning consumer.runners runner)
    (hrunner : next.runner = consumer.runner) (hpromise : next.stopPromise = consumer.stopPromise)
    (hstopped : next.stopped = consumer.stopped) (htimers : next.timers = consumer.timers)
    (hrestart : next.restartTimeout = consumer.restartTimeout) : Sound next := by
  refine ⟨fun runner hruns => ?_, fun runner hawaiting => ?_, fun hstop => ?_, ?_⟩
  · rw [hrunner]
    exact h.current runner (hrunning runner hruns)
  · obtain ⟨hvariable, hnot⟩ := h.awaiting runner (hpromise ▸ hawaiting)
    exact ⟨hrunner.trans hvariable, fun hruns => hnot (hrunning runner hruns)⟩
  · obtain ⟨hnone, hempty⟩ := h.stopped (hstopped ▸ hstop)
    exact ⟨hrunner.trans hnone, htimers.trans hempty⟩
  · rw [htimers, hrestart]
    exact h.timers

/-- A change of a runner that does not make it run. -/
theorem isRunning_of_modify {runners : List Runner} {index : Nat} {change : Runner → Runner}
    (hchange : ∀ state, (change state).running = true → state.running = true) {runner : Nat}
    (h : IsRunning (runners.modify index change) runner) : IsRunning runners runner := by
  obtain ⟨state, hstate, hruns⟩ := h
  rw [List.getElem?_modify] at hstate
  obtain ⟨old, hold, rfl⟩ := Option.map_eq_some_iff.mp hstate
  refine ⟨old, hold, ?_⟩
  split at hruns
  · exact hchange old hruns
  · exact hruns

/-- The restart that is scheduled is the one that `stop` clears. -/
theorem Sound.clearRestart (h : Sound consumer) : consumer.clearRestart.timers = [] := by
  unfold State.clearRestart
  rcases h.timers with hnone | ⟨timer, htimer, hrestart⟩
  · simp [hnone]
  · simp [htimer, hrestart]

/-- A call of `stop`. -/
theorem Sound.stop (h : Sound consumer) : Sound consumer.stop := by
  unfold State.stop
  split
  · next hpromise hrunner =>
      exact ⟨h.current, nofun, fun _ => ⟨hrunner, h.clearRestart⟩, Or.inl h.clearRestart⟩
  · next runner hpromise hrunner =>
      have hrunning : ∀ other, IsRunning (consumer.runners.modify runner fun state =>
          { state with running := false }) other → IsRunning consumer.runners other :=
        fun other => isRunning_of_modify (fun _ hruns => absurd hruns Bool.false_ne_true)
      refine ⟨fun other hother => h.current other (hrunning other hother), ?_, h.stopped, h.timers⟩
      rintro other ⟨⟩
      refine ⟨hrunner, ?_⟩
      rintro ⟨state, hstate, hruns⟩
      rw [List.getElem?_modify] at hstate
      obtain ⟨old, -, rfl⟩ := Option.map_eq_some_iff.mp hstate
      simp at hruns
  · exact h
  · exact h

/-- A call of `stop` by the user. -/
theorem Sound.userStop (h : Sound consumer)
    (horderly : consumer.stopPromise = .ending → consumer.runner = none ∧ consumer.timers = []) :
    Sound consumer.userStop := by
  have hstop := h.stop
  have hending : consumer.stop.stopPromise = .ending →
      consumer.stop.runner = none ∧ consumer.stop.timers = [] := by
    unfold State.stop
    split
    · next hpromise hrunner => exact fun _ => ⟨hrunner, h.clearRestart⟩
    · exact nofun
    · next hpromise => exact fun hsame => absurd (hpromise.symm.trans hsame) nofun
    · exact horderly
  unfold State.userStop
  split
  · next hpromise =>
      have hsame : consumer.stop.stopPromise = .ending := by rw [hpromise]
      exact ⟨hstop.current, hstop.awaiting, fun _ => hending hsame, hstop.timers⟩
  · exact ⟨hstop.current, hstop.awaiting, hstop.stopped, hstop.timers⟩

/-- A new runner in an empty variable. -/
theorem Sound.start (h : Sound consumer) (hnone : consumer.runner = none) {timers : List Nat}
    {stopped : Bool} (hgoes : stopped = false)
    (htimers : timers = [] ∨
      ∃ timer, timers = [timer] ∧ consumer.restartTimeout = some timer) :
    Sound { consumer.start with timers := timers, stopped := stopped } := by
  refine ⟨fun runner hruns => ?_, fun runner hawaiting => ?_,
    fun hstopped => absurd (hgoes.symm.trans hstopped) Bool.false_ne_true, htimers⟩
  · obtain ⟨state, hstate, hrunning⟩ := hruns
    change (consumer.runners ++ [_])[runner]? = some state at hstate
    rw [List.getElem?_append] at hstate
    split at hstate
    · cases hnone.symm.trans (h.current runner ⟨state, hstate, hrunning⟩)
    · rw [List.getElem?_singleton] at hstate
      split at hstate
      · cases hstate
        cases hrunning
      · cases hstate
  · cases hnone.symm.trans (h.awaiting runner hawaiting).1

/-- Every orderly step keeps the consumer sound. -/
theorem Sound.step (h : Sound consumer) (horderly : Orderly consumer event)
    (hstep : Lifecycle.step consumer event = some next) : Sound next := by
  cases event with
  | run =>
      simp only [Lifecycle.step] at hstep
      split at hstep
      · cases hstep
        exact h
      · next hvariable =>
          cases hstep
          have hnone : consumer.runner = none := by simpa using hvariable
          exact h.start hnone rfl h.timers
  | stop | disconnect =>
      cases hstep
      exact h.userStop horderly
  | joined runner =>
      simp only [Lifecycle.step] at hstep
      split at hstep
      · next state hstate =>
          cases hstep
          refine ⟨fun other hother => ?_, fun other hawaiting => ?_, h.stopped, h.timers⟩
          · by_cases heq : other = runner
            · rw [heq]
              exact horderly.1
            · obtain ⟨old, hold, hruns⟩ := hother
              rw [List.getElem?_set_ne (Ne.symm heq)] at hold
              exact h.current other ⟨old, hold, hruns⟩
          · -- the stop under way waits for another runner, but there is none in the variable
            have hvariable := (h.awaiting other hawaiting).1
            cases horderly.1.symm.trans hvariable
            exact absurd hawaiting horderly.2
      · cases hstep
  | startFails runner retriable =>
      simp only [Lifecycle.step] at hstep
      split at hstep
      · cases hstep
        refine h.stop.quiet (fun _ hruns => isRunning_of_modify ?_ hruns) rfl rfl rfl rfl rfl
        exact fun _ hruns => hruns
      · cases hstep
  | fetchManagerEnds runner =>
      simp only [Lifecycle.step] at hstep
      split at hstep
      · cases hstep
        refine h.quiet (fun _ hruns => isRunning_of_modify ?_ hruns) rfl rfl rfl rfl rfl
        exact fun _ hruns => hruns
      · cases hstep
  | crash runner retriable =>
      simp only [Lifecycle.step] at hstep
      split at hstep
      · cases hstep
        refine h.stop.quiet (fun _ hruns => isRunning_of_modify ?_ hruns) rfl rfl rfl rfl rfl
        exact fun _ hruns => absurd hruns Bool.false_ne_true
      · cases hstep
  | runnerStopped =>
      simp only [Lifecycle.step] at hstep
      split at hstep
      · next runner hpromise =>
          cases hstep
          obtain ⟨hvariable, hnot⟩ := h.awaiting runner hpromise
          refine ⟨fun other hother => ?_, nofun, fun _ => ⟨rfl, h.clearRestart⟩,
            Or.inl h.clearRestart⟩
          cases hvariable.symm.trans (h.current other hother)
          exact absurd hother hnot
      · cases hstep
      · cases hstep
  | stopCleared =>
      simp only [Lifecycle.step] at hstep
      split at hstep
      · cases hstep
        exact ⟨h.current, nofun, h.stopped, h.timers⟩
      · cases hstep
      · cases hstep
  | disconnected crash ok =>
      simp only [Lifecycle.step] at hstep
      split at hstep
      · cases hstep
        exact ⟨h.current, h.awaiting, h.stopped, h.timers⟩
      · cases hstep
  | decided crash restart =>
      simp only [Lifecycle.step] at hstep
      split at hstep
      · cases restart with
        | true =>
            cases hstep
            obtain ⟨hgoes, hempty⟩ := horderly
            refine ⟨h.current, h.awaiting, fun hstopped => ?_, Or.inr ⟨consumer.nextTimer, ?_, rfl⟩⟩
            · exact absurd (hgoes.symm.trans hstopped) Bool.false_ne_true
            · simp [hempty]
        | false =>
            cases hstep
            exact ⟨h.current, h.awaiting, h.stopped, h.timers⟩
      · cases hstep
  | timer timer =>
      simp only [Lifecycle.step] at hstep
      split at hstep
      · next hpending =>
          cases hstep
          have hgoes : consumer.stopped = false := by
            by_contra hstopped
            rw [Bool.not_eq_false] at hstopped
            rw [(h.stopped hstopped).2] at hpending
            cases hpending
          refine h.start horderly hgoes (Or.inl ?_)
          rcases h.timers with hnone | ⟨last, hlast, -⟩
          · rw [hnone]
            rfl
          · rw [hlast] at hpending ⊢
            rw [List.mem_singleton.mp hpending]
            simp
      · cases hstep

/-! ## Runs of a consumer -/

/-- Where runners join, timers fire and restarts are decided in order, at most one runner is
running, and a stopped consumer stays stopped. -/
theorem staysStopped_of_orderly {events : List Event} {final : State}
    (horderly : Meets step Orderly initial events)
    (hrun : run step initial events = some final) : StaysStopped final := by
  have hsound : Sound final := invariant_of_meets
    (fun _ _ _ h horderly hstep => h.step horderly hstep) Sound.initial horderly hrun
  refine ⟨fun first second hfirst hsecond => ?_, fun hstopped => ?_⟩
  · exact Option.some.inj ((hsound.current first hfirst).symm.trans (hsound.current second hsecond))
  · obtain ⟨hnone, htimers⟩ := hsound.stopped hstopped
    refine ⟨fun runner hruns => ?_, htimers⟩
    cases hnone.symm.trans (hsound.current runner hruns)

/-- The consumer crashes and restarts, and is stopped once it runs again. -/
def stopAfterRestart : List Event :=
  [.run, .joined 0, .crash 0 true, .runnerStopped, .stopCleared, .disconnected 0 true,
    .decided 0 true, .timer 0, .joined 1, .stop, .fetchManagerEnds 1, .runnerStopped, .stopCleared]

/-- A consumer stopped after a restart has stopped both of its runners. -/
theorem staysStopped_stopAfterRestart : ∃ final,
    run step initial stopAfterRestart = some final ∧ final.stopped = true ∧
      final.runners.length = 2 ∧ StaysStopped final := by
  obtain ⟨final, hrun, hfinal⟩ : ∃ final, run step initial stopAfterRestart = some final ∧
      (final.stopped, final.runners.length) = (true, 2) :=
    Option.map_eq_some_iff.mp (by decide)
  rw [Prod.mk.injEq] at hfinal
  exact ⟨final, hrun, hfinal.1, hfinal.2, staysStopped_of_orderly (by decide) hrun⟩

/-- `stop` is called while the runner joins the group. It settles, and then the runner runs. -/
def stopDuringStart : List Event := [.run, .stop, .runnerStopped, .stopCleared, .joined 0]

/-- A stop during the start leaves a runner that nobody stops. -/
theorem running_stopDuringStart : ∃ final,
    run step initial stopDuringStart = some final ∧ final.stopped = true ∧
      final.runner = none ∧ IsRunning final.runners 0 ∧ ¬ StaysStopped final := by
  refine ⟨_, rfl, rfl, rfl, ⟨_, rfl, rfl⟩, fun hstays => ?_⟩
  exact (hstays.stopped rfl).1 0 ⟨_, rfl, rfl⟩

end KafkaJs.Consumer.Lifecycle
