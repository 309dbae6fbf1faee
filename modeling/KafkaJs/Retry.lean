import KafkaJs.Errors
import KafkaJs.Execution.Run
import Mathlib.Data.List.Infix
import Mathlib.Algebra.Order.Ring.Unbundled.Rat

/-!
# The retrier

`retry/index.js`: a function is called until it succeeds, gives up by calling `bail`, fails in a way
that is not retriable, or has been retried often enough. The promise that is returned, the flag that
`bail` sets, the attempt and the timer for the next one are separate, so `bail` may be called at any
time, also while the timer runs. Times are in milliseconds and drawn at random; the draws are part
of the events.

`contract` says when the function is called again and how the promise is settled, for every sequence
of events.
-/

namespace KafkaJs.Retry

open Execution

/-- The options of a retrier, with the defaults of `retry/defaults.js`. -/
structure RetryOptions where
  maxRetryTime : ℚ := 30000
  initialRetryTime : ℚ := 300
  factor : ℚ := 1 / 5
  multiplier : ℚ := 2
  retries : Nat := 5

/-- `random`, for a draw from the unit interval. -/
def random (draw min max : ℚ) : ℚ := draw * (max - min) + min

/-- `randomFromRetryTime`. -/
def randomFromRetryTime (draw factor retryTime : ℚ) : ℚ :=
  let delta := factor * retryTime
  (random draw (retryTime - delta) (retryTime + delta)).ceil

/-- `calculateExponentialRetryTime`. -/
def calculateExponentialRetryTime (configs : RetryOptions) (draw retryTime : ℚ) : ℚ :=
  min (randomFromRetryTime draw configs.factor retryTime * configs.multiplier)
    configs.maxRetryTime

/-- With what the promise is rejected: the error that was passed to `bail` or `new
Error('Aborted')`, or an error of the function, wrapped by one of the constructors of `errors.js`.
-/
inductive Rejection where
  | bailed (error : KafkaError)
  | nonRetriableError (error : KafkaError)
  | numberOfRetriesExceeded (error : KafkaError) (retryCount : Nat) (retryTime : ℚ)
  deriving DecidableEq

/-- How the promise is settled. -/
inductive Settlement (α : Type) where
  | resolved (value : α)
  | rejected (rejection : Rejection)
  deriving DecidableEq

/-- What has happened: the function was called, `bail` was called, or an attempt was settled. -/
inductive Happening (α : Type) where
  | called (retryCount : Nat) (retryTime : ℚ)
  | bailed (error : Option KafkaError)
  | resolved (value : α)
  | rejected (retryCount : Nat) (retryTime : ℚ) (error : KafkaError)
  deriving DecidableEq

/-- An attempt is under way, the timer for the next one runs, or neither. -/
inductive Phase where
  | attempt (retryCount : Nat) (retryTime nextRetryTime : ℚ)
  | scheduled (retryCount : Nat) (retryTime : ℚ)
  | idle
  deriving DecidableEq

/-- What `createRetriable` closes over, the promise, and what has happened so far. -/
structure Retriable (α : Type) where
  aborted : Bool := false
  phase : Phase := .idle
  promise : Option (Settlement α) := none
  trace : List (Happening α) := []
  deriving DecidableEq

variable {α : Type}

/-- `resolve` and `reject` of the promise: the first call counts. -/
def Retriable.settle (settlement : Settlement α) (state : Retriable α) : Retriable α :=
  { state with promise := state.promise.or (some settlement) }

/-- Something has happened. -/
def Retriable.record (happening : Happening α) (state : Retriable α) : Retriable α :=
  { state with trace := state.trace ++ [happening] }

/-- The error with which `bail` rejects. -/
def bailError (error : Option KafkaError) : KafkaError :=
  error.getD { name := .error, message := "Aborted", retriable := none }

/-- `bail`. -/
def bail (error : Option KafkaError) (state : Retriable α) : Retriable α :=
  ({ state with aborted := true }.settle (.rejected (.bailed (bailError error)))).record
    (.bailed error)

/-- `retry` up to the call of the function. -/
def retry (configs : RetryOptions) (draw retryTime : ℚ) (retryCount : Nat) (state : Retriable α) :
    Retriable α :=
  if state.aborted then { state with phase := .idle }
  else
    let nextRetryTime := calculateExponentialRetryTime configs draw retryTime
    { state with phase := .attempt retryCount retryTime nextRetryTime }.record
      (.called retryCount retryTime)

/-- The handler of an attempt that is rejected. -/
def onRejected (configs : RetryOptions) (retryCount : Nat) (retryTime nextRetryTime : ℚ)
    (error : KafkaError) (state : Retriable α) : Retriable α :=
  if isErrorRetriable error then
    if retryCount < configs.retries then
      { state with phase := .scheduled (retryCount + 1) nextRetryTime }
    else
      { state with phase := .idle }.settle
        (.rejected (.numberOfRetriesExceeded error retryCount retryTime))
  else { state with phase := .idle }.settle (.rejected (.nonRetriableError error))

/-- The call of a retrier. -/
def start (configs : RetryOptions) (initialDraw draw : ℚ) : Retriable α :=
  retry configs draw (randomFromRetryTime initialDraw configs.factor configs.initialRetryTime) 0 {}

/-- `bail` is called, the attempt is settled, or the timer fires. -/
inductive Event (α : Type) where
  | bail (error : Option KafkaError)
  | resolve (value : α)
  | reject (error : KafkaError)
  | timer (draw : ℚ)
  deriving DecidableEq

/-- One event. -/
def step (configs : RetryOptions) (state : Retriable α) : Event α → Option (Retriable α)
  | .bail error => some (bail error state)
  | .resolve value =>
      match state.phase with
      | .attempt _ _ _ =>
          some (({ state with phase := .idle }.settle (.resolved value)).record (.resolved value))
      | _ => none
  | .reject error =>
      match state.phase with
      | .attempt retryCount retryTime nextRetryTime =>
          some ((onRejected configs retryCount retryTime nextRetryTime error state).record
            (.rejected retryCount retryTime error))
      | _ => none
  | .timer draw =>
      match state.phase with
      | .scheduled retryCount retryTime => some (retry configs draw retryTime retryCount state)
      | _ => none

/-! ## The contract -/

/-- How the promise is to be settled when this happens, if nothing settled it before. -/
def decisive (configs : RetryOptions) : Happening α → Option (Settlement α)
  | .called _ _ => none
  | .bailed error => some (.rejected (.bailed (bailError error)))
  | .resolved value => some (.resolved value)
  | .rejected retryCount retryTime error =>
      if isErrorRetriable error then
        if retryCount < configs.retries then none
        else some (.rejected (.numberOfRetriesExceeded error retryCount retryTime))
      else some (.rejected (.nonRetriableError error))

/-- The call of the function. -/
def Happening.isCall : Happening α → Bool
  | .called _ _ => true
  | _ => false

/-- The function may be called for the given retry: it is the first call, or nothing has settled the
promise, fewer than `retries` retries were made, and the last attempt was just rejected with a
retriable error. -/
def MayCall (configs : RetryOptions) (trace : List (Happening α)) (retryCount : Nat) : Prop :=
  trace.countP Happening.isCall = retryCount ∧
    (∀ happening ∈ trace, decisive configs happening = none) ∧
    (retryCount = 0 ∧ trace = [] ∨
      ∃ retries retryTime error, retryCount = retries + 1 ∧ retries < configs.retries ∧
        trace.getLast? = some (.rejected retries retryTime error) ∧
          isErrorRetriable error = true)

/-- Every call of the function is one that may be made. -/
def CallsAllowed (configs : RetryOptions) (trace : List (Happening α)) : Prop :=
  ∀ before retryCount retryTime, before ++ [.called retryCount retryTime] <+: trace →
    MayCall configs before retryCount

/-- How much is still to come before neither an attempt nor a timer is left. -/
def Phase.remaining (configs : RetryOptions) : Phase → Nat
  | .attempt retryCount _ _ => 2 * (configs.retries - retryCount) + 1
  | .scheduled retryCount _ => 2 * (configs.retries - retryCount) + 2
  | .idle => 0

/-- The event is not a call of `bail`. -/
def Event.advances : Event α → Bool
  | .bail _ => false
  | _ => true

/-! ## The invariant -/

/-- Nothing has settled the promise so far, calls of `bail` apart. -/
def Undecided (configs : RetryOptions) (state : Retriable α) : Prop :=
  state.aborted = false → ∀ happening ∈ state.trace, decisive configs happening = none

/-- What the phase says about the past. -/
def Fits (configs : RetryOptions) (state : Retriable α) : Prop :=
  match state.phase with
  | .attempt retryCount _ _ =>
      retryCount ≤ configs.retries ∧ state.trace.countP Happening.isCall = retryCount + 1 ∧
        Undecided configs state
  | .scheduled retryCount _ =>
      state.trace.countP Happening.isCall = retryCount ∧ Undecided configs state ∧
        ∃ retries, retryCount = retries + 1 ∧ retries < configs.retries ∧
          (state.aborted = false → ∃ retryTime error,
            state.trace.getLast? = some (.rejected retries retryTime error) ∧
              isErrorRetriable error = true)
  | .idle => state.promise.isSome = true

/-- What holds of every state that is reached. -/
structure Sound (configs : RetryOptions) (state : Retriable α) : Prop where
  promise : state.promise = state.trace.findSome? (decisive configs)
  aborted : state.aborted = true → ∃ error, .bailed error ∈ state.trace
  allowed : CallsAllowed configs state.trace
  bounded : state.trace.countP Happening.isCall ≤ configs.retries + 1
  fits : Fits configs state

variable {configs : RetryOptions} {state next : Retriable α} {trace : List (Happening α)}
  {happening : Happening α}

/-- Something that settles the promise is recorded. -/
theorem findSome?_record_of_some {promise : Option (Settlement α)} {settlement : Settlement α}
    (h : promise = trace.findSome? (decisive configs))
    (hdecisive : decisive configs happening = some settlement) :
    promise.or (some settlement) = (trace ++ [happening]).findSome? (decisive configs) := by
  rw [List.findSome?_append, ← h, List.findSome?_cons, hdecisive]

/-- Something that does not settle the promise is recorded. -/
theorem findSome?_record_of_none {promise : Option (Settlement α)}
    (h : promise = trace.findSome? (decisive configs))
    (hdecisive : decisive configs happening = none) :
    promise = (trace ++ [happening]).findSome? (decisive configs) := by
  rw [List.findSome?_append, ← h, List.findSome?_cons, hdecisive, List.findSome?_nil,
    Option.or_none]

/-- Something else than a call of the function is recorded. -/
theorem CallsAllowed.record (h : CallsAllowed configs trace) (hcall : happening.isCall = false) :
    CallsAllowed configs (trace ++ [happening]) := by
  intro before retryCount retryTime hprefix
  rcases List.prefix_concat_iff.mp hprefix with heq | hold
  · obtain ⟨-, hlast⟩ := List.append_inj' heq rfl
    rw [← List.singleton_injective hlast] at hcall
    cases hcall
  · exact h before retryCount retryTime hold

/-- A call of the function that may be made is recorded. -/
theorem CallsAllowed.call {retryCount : Nat} {retryTime : ℚ} (h : CallsAllowed configs trace)
    (hmay : MayCall configs trace retryCount) :
    CallsAllowed configs (trace ++ [.called retryCount retryTime]) := by
  intro before otherCount otherTime hprefix
  rcases List.prefix_concat_iff.mp hprefix with heq | hold
  · obtain ⟨hbefore, hcall⟩ := List.append_inj' heq rfl
    cases hcall
    exact hbefore ▸ hmay
  · exact h before otherCount otherTime hold

/-- Recording anything but a call keeps the number of calls. -/
theorem countP_record (hcall : happening.isCall = false) :
    (trace ++ [happening]).countP Happening.isCall = trace.countP Happening.isCall := by
  simp [List.countP_append, hcall]

/-- Bailing out keeps the retrier sound. -/
theorem Sound.bail (h : Sound configs state) (error : Option KafkaError) :
    Sound configs (bail error state) := by
  have hcount : (state.trace ++ [Happening.bailed error]).countP Happening.isCall =
      state.trace.countP Happening.isCall := countP_record rfl
  have hsome : (state.promise.or (some (.rejected (.bailed (bailError error))))).isSome = true := by
    simp
  refine ⟨findSome?_record_of_some h.promise rfl,
    fun _ => ⟨error, List.mem_append_right _ List.mem_cons_self⟩, h.allowed.record rfl,
    hcount.trans_le h.bounded, ?_⟩
  have hfits := h.fits
  obtain ⟨aborted, phase, promise, trace⟩ := state
  cases phase with
  | attempt retryCount retryTime nextRetryTime => exact ⟨hfits.1, hcount.trans hfits.2.1, nofun⟩
  | scheduled retryCount retryTime =>
      obtain ⟨hcalls, -, retries, hretries, hlt, -⟩ := hfits
      exact ⟨hcount.trans hcalls, nofun, retries, hretries, hlt, nofun⟩
  | idle => exact hsome

/-- The function is called for the next retry, unless the retrier is aborted. -/
theorem Sound.retry {retryCount : Nat} {retryTime : ℚ} (hpromise : state.promise =
      state.trace.findSome? (decisive configs))
    (haborted : state.aborted = true → ∃ error, .bailed error ∈ state.trace)
    (hallowed : CallsAllowed configs state.trace)
    (hcount : state.trace.countP Happening.isCall = retryCount) (hle : retryCount ≤ configs.retries)
    (hmay : state.aborted = false → MayCall configs state.trace retryCount) (draw : ℚ) :
    Sound configs (retry configs draw retryTime retryCount state) := by
  unfold Retry.retry
  split
  · next hflag =>
      refine ⟨hpromise, haborted, hallowed, hcount.trans_le (Nat.le_succ_of_le hle), ?_⟩
      obtain ⟨error, hmem⟩ := haborted hflag
      show state.promise.isSome = true
      rw [hpromise, List.findSome?_isSome_iff]
      exact ⟨_, hmem, rfl⟩
  · next hflag =>
      have hnot : state.aborted = false := Bool.eq_false_of_not_eq_true hflag
      have hcalls : (state.trace ++ [Happening.called retryCount retryTime]).countP
          Happening.isCall = retryCount + 1 := by
        rw [List.countP_append, hcount]
        rfl
      refine ⟨findSome?_record_of_none hpromise rfl, fun htrue => absurd htrue hflag,
        hallowed.call (hmay hnot), hcalls.trans_le (Nat.succ_le_succ hle), hle, hcalls, ?_⟩
      intro _ happening hmem
      rcases List.mem_append.mp hmem with hold | hnew
      · exact (hmay hnot).2.1 happening hold
      · exact List.mem_singleton.mp hnew ▸ rfl

/-- The promise is settled by an attempt, of which nothing is left. -/
theorem Sound.finish (h : Sound configs state) {settlement : Settlement α}
    (hcall : happening.isCall = false) (hdecisive : decisive configs happening = some settlement) :
    Sound configs (({ state with phase := .idle }.settle settlement).record happening) := by
  refine ⟨findSome?_record_of_some h.promise hdecisive, ?_, h.allowed.record hcall,
    (countP_record hcall).trans_le h.bounded, ?_⟩
  · intro haborted
    obtain ⟨error, hmem⟩ := h.aborted haborted
    exact ⟨error, List.mem_append_left _ hmem⟩
  · show (state.promise.or (some settlement)).isSome = true
    simp

/-- A rejected attempt keeps the retrier sound. -/
theorem Sound.reject (h : Sound configs state) {retryCount : Nat} {retryTime nextRetryTime : ℚ}
    (hphase : state.phase = .attempt retryCount retryTime nextRetryTime) (error : KafkaError) :
    Sound configs ((onRejected configs retryCount retryTime nextRetryTime error state).record
      (.rejected retryCount retryTime error)) := by
  unfold onRejected
  split
  · next hretriable =>
      split
      · next hlt =>
          have hnone : decisive configs (.rejected retryCount retryTime error) =
              (none : Option (Settlement α)) := by
            rw [decisive, if_pos hretriable, if_pos hlt]
          have hfits := h.fits
          rw [Fits, hphase] at hfits
          obtain ⟨-, hcount, hundecided⟩ := hfits
          refine ⟨findSome?_record_of_none h.promise hnone, ?_, h.allowed.record rfl,
            (countP_record rfl).trans_le h.bounded, (countP_record rfl).trans hcount, ?_,
            retryCount, rfl, hlt, fun _ => ⟨retryTime, error, List.getLast?_concat, hretriable⟩⟩
          · intro haborted
            obtain ⟨bailed, hmem⟩ := h.aborted haborted
            exact ⟨bailed, List.mem_append_left _ hmem⟩
          · intro haborted happening hmem
            rcases List.mem_append.mp hmem with hold | hnew
            · exact hundecided haborted happening hold
            · exact List.mem_singleton.mp hnew ▸ hnone
      · next hge =>
          exact h.finish rfl (by rw [decisive, if_pos hretriable, if_neg hge])
  · next hretriable => exact h.finish rfl (by rw [decisive, if_neg hretriable])

/-- Every event keeps the retrier sound. -/
theorem Sound.step {event : Event α} (h : Sound configs state)
    (hstep : step configs state event = some next) : Sound configs next := by
  cases event with
  | bail error =>
      cases hstep
      exact h.bail error
  | resolve value =>
      rw [Retry.step] at hstep
      split at hstep <;> cases hstep
      exact h.finish rfl rfl
  | reject error =>
      rw [Retry.step] at hstep
      split at hstep
      · next retryCount retryTime nextRetryTime hphase =>
          cases hstep
          exact h.reject hphase error
      · cases hstep
  | timer draw =>
      rw [Retry.step] at hstep
      split at hstep
      · next retryCount retryTime hphase =>
          cases hstep
          have hfits := h.fits
          rw [Fits, hphase] at hfits
          obtain ⟨hcount, hundecided, retries, hretries, hlt, hlast⟩ := hfits
          refine Sound.retry h.promise h.aborted h.allowed hcount (hretries ▸ hlt) ?_ draw
          intro hnot
          obtain ⟨lastTime, error, hrejected, hretriable⟩ := hlast hnot
          exact ⟨hcount, hundecided hnot, Or.inr ⟨retries, lastTime, error, hretries, hlt, hrejected,
            hretriable⟩⟩
      · cases hstep

/-- A retrier that starts is sound. -/
theorem sound_start (configs : RetryOptions) (initialDraw draw : ℚ) :
    Sound configs (start configs initialDraw draw : Retriable α) := by
  refine Sound.retry rfl (fun haborted => absurd haborted Bool.false_ne_true) ?_ rfl
    (Nat.zero_le _) (fun _ => ⟨rfl, fun _ hmem => absurd hmem List.not_mem_nil, Or.inl ⟨rfl, rfl⟩⟩)
    draw
  intro before retryCount retryTime hprefix
  exact absurd (List.prefix_nil.mp hprefix) (List.concat_ne_nil _ _)

/-! ## Coming to rest -/

/-- What remains after a retry is bounded. -/
theorem remaining_retry (configs : RetryOptions) (draw retryTime : ℚ) (retryCount : Nat)
    (state : Retriable α) :
    (retry configs draw retryTime retryCount state).phase.remaining configs ≤
      2 * (configs.retries - retryCount) + 1 := by
  unfold retry
  split
  · exact Nat.zero_le _
  · exact Nat.le_refl _

/-- Every event but a call of `bail` brings the retrier closer to rest. -/
theorem remaining_step {event : Event α} (hstep : step configs state event = some next) :
    next.phase.remaining configs + (if event.advances then 1 else 0) ≤
      state.phase.remaining configs := by
  cases event with
  | bail error =>
      cases hstep
      exact Nat.le_refl _
  | resolve value =>
      rw [step] at hstep
      split at hstep
      · next hphase =>
          cases hstep
          rw [hphase]
          exact Nat.le_add_left 1 _
      · cases hstep
  | reject error =>
      rw [step] at hstep
      split at hstep
      · next retryCount retryTime nextRetryTime hphase =>
          cases hstep
          rw [hphase]
          unfold onRejected
          split
          · split
            -- an attempt and a timer are used up, and the retry has one attempt less
            · next hlt =>
                show 2 * (configs.retries - (retryCount + 1)) + 2 + 1 ≤
                  2 * (configs.retries - retryCount) + 1
                omega
            · exact Nat.le_add_left 1 _
          · exact Nat.le_add_left 1 _
      · cases hstep
  | timer draw =>
      rw [step] at hstep
      split at hstep
      · next retryCount retryTime hphase =>
          cases hstep
          rw [hphase]
          exact Nat.succ_le_succ (remaining_retry configs draw retryTime retryCount state)
      · cases hstep

/-- What remains decreases along every run. -/
theorem remaining_run {events : List (Event α)} (hrun : run (step configs) state events = some next) :
    next.phase.remaining configs + events.countP Event.advances ≤
      state.phase.remaining configs := by
  induction events generalizing state with
  | nil =>
      cases hrun
      exact Nat.le_refl _
  | cons event events ih =>
      obtain ⟨middle, hstep, hrest⟩ := run_cons_eq_some.mp hrun
      have hfirst := remaining_step hstep
      have hlater := ih hrest
      rw [List.countP_cons]
      omega

/-- For every sequence of outcomes of the attempts, of calls of `bail` at any time and of timers:
the function is called only when it may be, at most `retries + 1` times; the promise is settled by
the first thing that decides it; and after at most `2 * retries + 1` outcomes and timers neither an
attempt nor a timer is left, and then the promise is settled. -/
theorem contract (configs : RetryOptions) (initialDraw draw : ℚ) {events : List (Event α)}
    {final : Retriable α}
    (hrun : run (step configs) (start configs initialDraw draw) events = some final) :
    CallsAllowed configs final.trace ∧
    final.trace.countP Happening.isCall ≤ configs.retries + 1 ∧
    final.promise = final.trace.findSome? (decisive configs) ∧
    events.countP Event.advances ≤ 2 * configs.retries + 1 ∧
    (final.phase = .idle → final.promise.isSome = true) := by
  have hsound : Sound configs final := invariant_of_run
    (fun _ _ _ h hstep => h.step hstep) (sound_start configs initialDraw draw) hrun
  refine ⟨hsound.allowed, hsound.bounded, hsound.promise, ?_, ?_⟩
  · have hremaining := remaining_run hrun
    have hstart := remaining_retry configs draw
      (randomFromRetryTime initialDraw configs.factor configs.initialRetryTime) 0
      ({} : Retriable α)
    rw [start] at hremaining
    omega
  · intro hidle
    have hfits := hsound.fits
    rw [Fits, hidle] at hfits
    exact hfits

/-- The error of a broker that is not available at the moment. -/
def unavailable : KafkaError := createErrorFromCode 5

/-- With one retry allowed, the first attempt fails in a way that is retriable, the second one calls
`bail` and then fails in the same way. -/
def secondAttemptBails : List (Event Nat) :=
  [.reject unavailable, .timer 0, .bail (some unavailable), .reject unavailable]

/-- The state after `secondAttemptBails`. -/
def bailed : Retriable Nat where
  aborted := true
  promise := some (.rejected (.bailed unavailable))
  trace := [.called 0 240, .rejected 0 240 unavailable, .called 1 384, .bailed (some unavailable),
    .rejected 1 384 unavailable]

/-- The run that bails out during its second attempt. -/
theorem run_secondAttemptBails :
    run (step { retries := 1 }) (start { retries := 1 } 0 0) secondAttemptBails = some bailed := by
  decide +kernel

/-- A retrier that bails out keeps the contract. -/
theorem contract_secondAttemptBails :
    run (step { retries := 1 }) (start { retries := 1 } 0 0) secondAttemptBails = some bailed ∧
    CallsAllowed { retries := 1 } bailed.trace ∧
    bailed.trace.countP Happening.isCall ≤ 1 + 1 ∧
    bailed.promise = bailed.trace.findSome? (decisive { retries := 1 }) ∧
    secondAttemptBails.countP Event.advances ≤ 2 * 1 + 1 ∧
    (bailed.phase = .idle → bailed.promise.isSome = true) :=
  ⟨run_secondAttemptBails, contract { retries := 1 } 0 0 run_secondAttemptBails⟩

end KafkaJs.Retry
