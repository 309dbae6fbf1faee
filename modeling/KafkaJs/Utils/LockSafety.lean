import KafkaJs.Errors
import KafkaJs.Execution.Run
import KafkaJs.Utils.Lock

/-!
# Safety of the lock

The calls of `acquire` on one lock (`utils/lock.js`) are numbered in the order in which they are
made. A call that does not get the lock at once registers `tryToAcquire` and starts its timer;
the call that `release` lets try clears its timer again. `lockSafety` says, for every
interleaving in which only a holder releases, that the lock has one holder at a time, that it is
granted in the order of the calls, that no call is both granted and rejected, and that a free
lock has no waiters.
-/

namespace KafkaJs.Utils

open Execution

namespace Lock

variable {ω : Type}

/-- `tryToAcquire` of a waiter, with whether it gets the lock. -/
def tryToAcquire [DecidableEq ω] (lock : Lock ω) (waiter : ω) : Lock ω × Bool :=
  if lock.locked then (lock, false)
  else ({ lock with locked := true, waiting := lock.waiting.erase waiter }, true)

/-- `release` frees the lock and lets the first waiter try, which succeeds. -/
theorem release_eq_tryToAcquire [DecidableEq ω] (lock : Lock ω) :
    lock.release = match lock.waiting.head? with
      | none => ({ lock with locked := false }, none)
      | some waiter =>
          (({ lock with locked := false }.tryToAcquire waiter).1,
            if ({ lock with locked := false }.tryToAcquire waiter).2 then some waiter else none) := by
  obtain ⟨locked, waiting⟩ := lock
  cases waiting with
  | nil => rfl
  | cons waiter rest =>
      show ((⟨true, rest⟩ : Lock ω), some waiter) = _
      simp [tryToAcquire]

/-- `TIMEOUT_ERROR_MESSAGE`, with the number of waiters. An empty description counts as none. -/
def timeoutErrorMessage (description : Option String) (waiting : Nat) : String :=
  let timeoutMessage := "Timeout while acquiring lock (" ++ toString waiting ++ " waiting locks)"
  match description with
  | none => timeoutMessage
  | some text => if text = "" then timeoutMessage else timeoutMessage ++ ": \"" ++ text ++ "\""

/-- A lock with the calls of `acquire` on it. -/
structure Calls where
  description : Option String
  lock : Lock Nat := free
  /-- How many calls were made; the next one gets this number. -/
  count : Nat := 0
  /-- The calls whose timer is running. -/
  timers : List Nat := []
  /-- The calls that were resolved, in that order. -/
  granted : List Nat := []
  /-- The calls that were rejected, with their errors. -/
  rejected : List (Nat × KafkaError) := []
  /-- The grants that were released again. -/
  released : List Nat := []
  deriving DecidableEq, Repr

/-- What happens to a lock: a call of `acquire`, the timer of a call, the release of a grant. -/
inductive Event where
  | acquire
  | timeout (call : Nat)
  | release (call : Nat)
  deriving DecidableEq, Repr

namespace Calls

/-- The call was granted the lock and did not release it yet. -/
def Holds (calls : Calls) (call : Nat) : Prop :=
  call ∈ calls.granted ∧ call ∉ calls.released

/-- `Holds` is decidable by looking the call up in two lists. -/
instance (calls : Calls) (call : Nat) : Decidable (calls.Holds call) :=
  inferInstanceAs (Decidable (_ ∧ _))

/-- The call is neither granted nor rejected. -/
def Waits (calls : Calls) (call : Nat) : Prop :=
  call < calls.count ∧ call ∉ calls.granted ∧ call ∉ calls.rejected.map Prod.fst

/-- The error of a call whose timer fires. The message counts the call itself, which is still
registered. -/
def timeoutError (calls : Calls) : KafkaError :=
  { name := .kafkaJSLockTimeout
    message := timeoutErrorMessage calls.description calls.lock.waiting.length
    retriable := some false }

/-- One event. A timer fires only while it runs, and only a holder releases. -/
def step (calls : Calls) : Event → Option Calls
  | .acquire =>
      let (lock, atOnce) := calls.lock.acquire calls.count
      some { calls with
        lock
        count := calls.count + 1
        timers := if atOnce then calls.timers else calls.timers ++ [calls.count]
        granted := if atOnce then calls.granted ++ [calls.count] else calls.granted }
  | .timeout call =>
      if call ∈ calls.timers then
        some { calls with
          lock := calls.lock.expire call
          timers := calls.timers.erase call
          rejected := calls.rejected ++ [(call, calls.timeoutError)] }
      else none
  | .release call =>
      if calls.Holds call then
        let (lock, next) := calls.lock.release
        some { calls with
          lock
          released := calls.released ++ [call]
          -- `clearTimeout` of the waiter that takes the lock
          timers := next.elim calls.timers calls.timers.erase
          granted := calls.granted ++ next.toList }
      else none

/-! ## What an event does -/

/-- The five things that happen to a lock. -/
inductive Moves (calls : Calls) : Calls → Prop
  | waits (hlocked : calls.lock.locked = true) :
      Moves calls { calls with
        lock := ⟨true, calls.lock.waiting ++ [calls.count]⟩
        count := calls.count + 1
        timers := calls.timers ++ [calls.count] }
  | granted (hlocked : calls.lock.locked = false) :
      Moves calls { calls with
        lock := ⟨true, calls.lock.waiting⟩
        count := calls.count + 1
        granted := calls.granted ++ [calls.count] }
  | timedOut (call : Nat) (htimer : call ∈ calls.timers) :
      Moves calls { calls with
        lock := calls.lock.expire call
        timers := calls.timers.erase call
        rejected := calls.rejected ++ [(call, calls.timeoutError)] }
  | handedOver (call waiter : Nat) (rest : List Nat) (hholds : calls.Holds call)
      (hwaiting : calls.lock.waiting = waiter :: rest) :
      Moves calls { calls with
        lock := ⟨true, rest⟩
        released := calls.released ++ [call]
        timers := calls.timers.erase waiter
        granted := calls.granted ++ [waiter] }
  | freed (call : Nat) (hholds : calls.Holds call) (hwaiting : calls.lock.waiting = []) :
      Moves calls { calls with lock := free, released := calls.released ++ [call] }

/-- What an event does to the calls. -/
theorem step_moves {calls next : Calls} {event : Event} (h : calls.step event = some next) :
    Moves calls next := by
  cases event with
  | acquire =>
      cases hlocked : calls.lock.locked with
      | true =>
          simp only [step, Lock.acquire, hlocked, if_true, Bool.false_eq_true, if_false] at h
          cases h
          exact .waits hlocked
      | false =>
          simp only [step, Lock.acquire, hlocked, Bool.false_eq_true, if_true, if_false] at h
          cases h
          exact .granted hlocked
  | timeout call =>
      simp only [step, Option.ite_none_right_eq_some, Option.some.injEq] at h
      obtain ⟨htimer, rfl⟩ := h
      exact .timedOut call htimer
  | release call =>
      simp only [step, Lock.release, Option.ite_none_right_eq_some] at h
      obtain ⟨hholds, h⟩ := h
      cases hwaiting : calls.lock.waiting with
      | nil =>
          rw [hwaiting] at h
          cases h
          rw [show calls.granted ++ (none : Option Nat).toList = calls.granted from
            List.append_nil _]
          exact .freed call hholds hwaiting
      | cons waiter rest =>
          rw [hwaiting] at h
          cases h
          exact .handedOver call waiter rest hholds hwaiting

/-! ## The invariant -/

/-- The lock serves its calls in order. -/
structure Sound (calls : Calls) : Prop where
  serves : Serves calls.lock calls.Holds calls.Waits
  /-- A locked lock has a holder. -/
  held : calls.lock.locked = true → ∃ call, calls.Holds call
  timers : calls.timers = calls.lock.waiting
  ordered : (calls.granted ++ calls.lock.waiting).Pairwise (· < ·)
  made : ∀ call, call ∈ calls.granted ∨ call ∈ calls.rejected.map Prod.fst → call < calls.count
  separate : ∀ call ∈ calls.granted, call ∉ calls.rejected.map Prod.fst
  released : ∀ call ∈ calls.released, call ∈ calls.granted

/-- A new lock is free. -/
theorem sound_initial (description : Option String) : Sound { description } := by
  refine ⟨serves_free.congr ?_ ?_, ?_, rfl, List.Pairwise.nil, ?_, ?_, ?_⟩
  · intro call
    simp [Holds]
  · intro call
    simp [Waits]
  · simp [free]
  · simp
  · simp
  · simp

variable {calls next : Calls}

/-- The waiters are calls that were made. -/
theorem Sound.lt_count (h : calls.Sound) {call : Nat} (hmem : call ∈ calls.lock.waiting) :
    call < calls.count :=
  ((h.serves.waiting call).mp hmem).1

/-- A new call comes after every call that was granted or waits. -/
theorem Sound.ordered_concat (h : calls.Sound) :
    (calls.granted ++ calls.lock.waiting ++ [calls.count]).Pairwise (· < ·) := by
  refine List.pairwise_append.mpr ⟨h.ordered, List.pairwise_singleton _ _, ?_⟩
  intro earlier hearlier later hlater
  rw [List.mem_singleton.mp hlater]
  rcases List.mem_append.mp hearlier with hgranted | hwaiting
  · exact h.made earlier (Or.inl hgranted)
  · exact h.lt_count hwaiting

/-- The number of a new call is not in use. -/
theorem Sound.fresh (h : calls.Sound) :
    calls.count ∉ calls.granted ∧ calls.count ∉ calls.rejected.map Prod.fst ∧
      calls.count ∉ calls.released := by
  have hgranted : calls.count ∉ calls.granted :=
    fun hmem => Nat.lt_irrefl _ (h.made _ (Or.inl hmem))
  refine ⟨hgranted, fun hmem => Nat.lt_irrefl _ (h.made _ (Or.inr hmem)), ?_⟩
  exact fun hmem => hgranted (h.released _ hmem)

/-- A call that finds the lock taken waits. -/
theorem Sound.waits (h : calls.Sound) (hlocked : calls.lock.locked = true) :
    Sound { calls with
      lock := ⟨true, calls.lock.waiting ++ [calls.count]⟩
      count := calls.count + 1
      timers := calls.timers ++ [calls.count] } := by
  obtain ⟨hgranted, hrejected, -⟩ := h.fresh
  have hserves := h.serves.acquire (fun hwaits => Nat.lt_irrefl _ hwaits.1)
  simp only [Lock.acquire, hlocked, if_true, Bool.false_eq_true, false_and, or_false,
    true_and] at hserves
  refine ⟨hserves.congr (fun _ => Iff.rfl) ?_, fun _ => h.held hlocked, ?_, ?_, ?_, h.separate,
    h.released⟩
  · intro call
    show call < calls.count + 1 ∧ call ∉ calls.granted ∧ call ∉ calls.rejected.map Prod.fst ↔
      calls.Waits call ∨ call = calls.count
    constructor
    · intro hwaits
      rcases Nat.lt_succ_iff_lt_or_eq.mp hwaits.1 with hlt | heq
      · exact Or.inl ⟨hlt, hwaits.2⟩
      · exact Or.inr heq
    · intro hwaits
      rcases hwaits with hwaits | heq
      · exact ⟨Nat.lt_succ_of_lt hwaits.1, hwaits.2⟩
      · rw [heq]
        exact ⟨Nat.lt_succ_self _, hgranted, hrejected⟩
  · show calls.timers ++ [calls.count] = calls.lock.waiting ++ [calls.count]
    rw [h.timers]
  · show (calls.granted ++ (calls.lock.waiting ++ [calls.count])).Pairwise (· < ·)
    rw [← List.append_assoc]
    exact h.ordered_concat
  · exact fun call hmem => Nat.lt_succ_of_lt (h.made call hmem)

/-- A free lock has no waiters, so the call that takes it comes after all that were granted. -/
theorem Sound.granted (h : calls.Sound) (hlocked : calls.lock.locked = false) :
    Sound { calls with
      lock := ⟨true, calls.lock.waiting⟩
      count := calls.count + 1
      granted := calls.granted ++ [calls.count] } := by
  obtain ⟨hgranted, hrejected, hreleased⟩ := h.fresh
  obtain ⟨hnone, hempty⟩ := h.serves.free hlocked
  have hserves := h.serves.acquire (fun hwaits => Nat.lt_irrefl _ hwaits.1)
  have hordered := h.ordered_concat
  simp only [Lock.acquire, hlocked, Bool.false_eq_true, if_false, false_and, or_false,
    true_and, Bool.true_eq_false] at hserves
  refine ⟨hserves.congr ?_ ?_, fun _ => ⟨calls.count, by simp, hreleased⟩, h.timers, ?_, ?_, ?_,
    ?_⟩
  · intro call
    show call ∈ calls.granted ++ [calls.count] ∧ call ∉ calls.released ↔
      calls.Holds call ∨ call = calls.count
    rw [List.mem_append, List.mem_singleton, or_and_right]
    refine or_congr_right ⟨And.left, ?_⟩
    intro heq
    exact ⟨heq, heq ▸ hreleased⟩
  · intro call
    show call < calls.count + 1 ∧ call ∉ calls.granted ++ [calls.count] ∧
      call ∉ calls.rejected.map Prod.fst ↔ calls.Waits call
    rw [List.mem_append, List.mem_singleton, not_or, Waits, and_assoc]
    constructor
    · intro ⟨hlt, hcalls, hne, hout⟩
      exact ⟨Nat.lt_of_le_of_ne (Nat.le_of_lt_succ hlt) hne, hcalls, hout⟩
    · intro ⟨hlt, hcalls, hout⟩
      exact ⟨Nat.lt_succ_of_lt hlt, hcalls, Nat.ne_of_lt hlt, hout⟩
  · rw [hempty] at hordered ⊢
    simpa using hordered
  · intro call hmem
    rw [List.mem_append, List.mem_singleton, or_right_comm] at hmem
    rcases hmem with hmem | heq
    · exact Nat.lt_succ_of_lt (h.made call hmem)
    · exact heq ▸ Nat.lt_succ_self _
  · intro call hmem
    rcases List.mem_append.mp hmem with hmem | hmem
    · exact h.separate call hmem
    · exact List.mem_singleton.mp hmem ▸ hrejected
  · exact fun call hmem => List.mem_append_left _ (h.released call hmem)

/-- A call whose wait times out leaves the queue. -/
theorem Sound.timedOut (h : calls.Sound) {call : Nat} (htimer : call ∈ calls.timers)
    (error : KafkaError) :
    Sound { calls with
      lock := calls.lock.expire call
      timers := calls.timers.erase call
      rejected := calls.rejected ++ [(call, error)] } := by
  rw [h.timers] at htimer
  have hwaits := (h.serves.waiting call).mp htimer
  have hrejected : ∀ other, other ∈ (calls.rejected ++ [(call, error)]).map Prod.fst ↔
      other ∈ calls.rejected.map Prod.fst ∨ other = call := by
    intro other
    simp
  refine ⟨(h.serves.expire call).congr (fun _ => Iff.rfl) ?_, h.held, ?_, ?_, ?_, ?_, h.released⟩
  · intro other
    show other < calls.count ∧ other ∉ calls.granted ∧ _ ↔ calls.Waits other ∧ other ≠ call
    rw [hrejected, not_or, Waits, and_assoc, and_assoc]
  · show calls.timers.erase call = calls.lock.waiting.erase call
    rw [h.timers]
  · exact h.ordered.sublist (List.Sublist.append_left List.erase_sublist _)
  · intro other hmem
    rw [hrejected, ← or_assoc] at hmem
    rcases hmem with hmem | heq
    · exact h.made other hmem
    · exact heq ▸ hwaits.1
  · intro other hmem hout
    rcases (hrejected other).mp hout with hout | heq
    · exact h.separate other hmem hout
    · exact hwaits.2.1 (heq ▸ hmem)

/-- After a release the releasing call is no longer a holder, and no other call was one. -/
theorem Sound.not_holds_of_release (h : calls.Sound) {call other : Nat} (hholds : calls.Holds call)
    (hmem : other ∈ calls.granted) : other ∈ calls.released ++ [call] := by
  by_cases hreleased : other ∈ calls.released
  · exact List.mem_append_left _ hreleased
  · have heq := h.serves.exclusive other call ⟨hmem, hreleased⟩ hholds
    exact List.mem_append_right _ (List.mem_singleton.mpr heq)

/-- A release hands the lock over to the first call that waits. -/
theorem Sound.handedOver (h : calls.Sound) {call waiter : Nat} {rest : List Nat}
    (hholds : calls.Holds call) (hwaiting : calls.lock.waiting = waiter :: rest) :
    Sound { calls with
      lock := ⟨true, rest⟩
      released := calls.released ++ [call]
      timers := calls.timers.erase waiter
      granted := calls.granted ++ [waiter] } := by
  have hwaits : calls.Waits waiter :=
    (h.serves.waiting waiter).mp (hwaiting ▸ List.mem_cons_self)
  -- a call that waits was never granted the lock, so it has not released it
  have hreleased : waiter ∉ calls.released ++ [call] := by
    intro hmem
    rcases List.mem_append.mp hmem with hmem | hmem
    · exact hwaits.2.1 (h.released _ hmem)
    · exact hwaits.2.1 (List.mem_singleton.mp hmem ▸ hholds.1)
  have hserves := h.serves.release
  simp only [Lock.release, hwaiting, Option.some.injEq, ne_eq] at hserves
  refine ⟨hserves.congr ?_ ?_, fun _ => ⟨waiter, by simp, hreleased⟩, ?_, ?_, ?_, ?_, ?_⟩
  · intro other
    show other ∈ calls.granted ++ [waiter] ∧ other ∉ calls.released ++ [call] ↔ waiter = other
    rw [List.mem_append, List.mem_singleton]
    constructor
    · intro hother
      rcases hother.1 with hmem | heq
      · exact absurd (h.not_holds_of_release hholds hmem) hother.2
      · exact heq.symm
    · intro heq
      exact ⟨Or.inr heq.symm, heq ▸ hreleased⟩
  · intro other
    show other < calls.count ∧ other ∉ calls.granted ++ [waiter] ∧
      other ∉ calls.rejected.map Prod.fst ↔ calls.Waits other ∧ ¬ waiter = other
    rw [List.mem_append, List.mem_singleton, not_or, Waits, and_assoc, and_assoc, and_assoc,
      eq_comm (a := other)]
    tauto
  · show calls.timers.erase waiter = rest
    rw [h.timers, hwaiting, List.erase_cons_head]
  · have hordered := h.ordered
    rw [hwaiting, List.append_cons] at hordered
    exact hordered
  · intro other hmem
    rw [List.mem_append, List.mem_singleton, or_right_comm] at hmem
    rcases hmem with hmem | heq
    · exact h.made other hmem
    · exact heq ▸ hwaits.1
  · intro other hmem
    rcases List.mem_append.mp hmem with hmem | hmem
    · exact h.separate other hmem
    · exact List.mem_singleton.mp hmem ▸ hwaits.2.2
  · intro other hmem
    rcases List.mem_append.mp hmem with hmem | hmem
    · exact List.mem_append_left _ (h.released other hmem)
    · exact List.mem_append_left _ (List.mem_singleton.mp hmem ▸ hholds.1)

/-- A release frees the lock if no call waits. -/
theorem Sound.freed (h : calls.Sound) {call : Nat} (hholds : calls.Holds call)
    (hwaiting : calls.lock.waiting = []) :
    Sound { calls with lock := free, released := calls.released ++ [call] } := by
  have hserves := h.serves.release
  simp only [Lock.release, hwaiting, ne_eq] at hserves
  refine ⟨hserves.congr ?_ ?_, by simp [free], ?_, ?_, h.made, h.separate, ?_⟩
  · intro other
    show other ∈ calls.granted ∧ other ∉ calls.released ++ [call] ↔ none = some other
    constructor
    · intro hother
      exact absurd (h.not_holds_of_release hholds hother.1) hother.2
    · intro heq
      cases heq
  · intro other
    show calls.Waits other ↔ calls.Waits other ∧ ¬ none = some other
    simp
  · rw [h.timers, hwaiting]
    rfl
  · have hordered := h.ordered
    rw [hwaiting] at hordered
    exact hordered
  · intro other hmem
    rcases List.mem_append.mp hmem with hmem | hmem
    · exact h.released other hmem
    · exact List.mem_singleton.mp hmem ▸ hholds.1

/-- Every event keeps the lock sound. -/
theorem Sound.step (h : calls.Sound) {event : Event} (hstep : calls.step event = some next) :
    next.Sound := by
  cases step_moves hstep with
  | waits hlocked => exact h.waits hlocked
  | granted hlocked => exact h.granted hlocked
  | timedOut call htimer => exact h.timedOut htimer _
  | handedOver call waiter rest hholds hwaiting => exact h.handedOver hholds hwaiting
  | freed call hholds hwaiting => exact h.freed hholds hwaiting

/-- Every run keeps the lock sound. -/
theorem sound_of_run {description : Option String} {events : List Event} {final : Calls}
    (h : run step { description } events = some final) : final.Sound :=
  invariant_of_run (fun _ _ _ hsound hstep => hsound.step hstep) (sound_initial description) h

/-! ## Safety -/

/-- Calls are granted in order, so a call before a granted one is not waiting any more. -/
theorem Sound.served_before (h : calls.Sound) {earlier later : Nat} (hlt : earlier < later)
    (hlater : later ∈ calls.granted) : ¬ calls.Waits earlier := by
  intro hwaits
  have hwaiting := (h.serves.waiting earlier).mpr hwaits
  have hbefore := (List.pairwise_append.mp h.ordered).2.2 later hlater earlier hwaiting
  exact Nat.lt_asymm hlt hbefore

/-- The waiter that takes the lock has no timer, so it cannot be rejected afterwards. -/
theorem Sound.no_timer (h : calls.Sound) {call : Nat} (hmem : call ∈ calls.granted) :
    call ∉ calls.timers := by
  rw [h.timers, h.serves.waiting]
  exact fun hwaits => hwaits.2.1 hmem

/-- In every run in which only a holder releases, the lock has at most one holder; it is granted
in the order of the calls of `acquire`, and never past a call that still waits; no call is both
granted and rejected; and while some call waits, the lock is not free. -/
theorem lockSafety {description : Option String} {events : List Event} {final : Calls}
    (h : run step { description } events = some final) :
    (∀ first second, final.Holds first → final.Holds second → first = second) ∧
    final.granted.Pairwise (· < ·) ∧
    (∀ earlier later, earlier < later → later ∈ final.granted → ¬ final.Waits earlier) ∧
    (∀ call ∈ final.granted, call ∉ final.rejected.map Prod.fst ∧ call ∉ final.timers) ∧
    (final.lock.locked = false → ∀ call, ¬ final.Waits call) := by
  have hsound := sound_of_run h
  refine ⟨hsound.serves.exclusive, (List.pairwise_append.mp hsound.ordered).1, ?_, ?_, ?_⟩
  · intro earlier later hlt hlater
    exact hsound.served_before hlt hlater
  · intro call hmem
    exact ⟨hsound.separate call hmem, hsound.no_timer hmem⟩
  · intro hlocked call hwaits
    have hmem := (hsound.serves.waiting call).mpr hwaits
    rw [(hsound.serves.free hlocked).2] at hmem
    exact absurd hmem List.not_mem_nil

/-- Of three calls the first gets the lock, the second times out, and the third is handed the
lock by the first. -/
def handOver : List Event := [.acquire, .acquire, .acquire, .timeout 1, .release 0]

/-- The calls after `handOver`. -/
def handedOver : Calls where
  description := none
  lock := ⟨true, []⟩
  count := 3
  granted := [0, 2]
  rejected := [(1,
    { name := .kafkaJSLockTimeout
      message := "Timeout while acquiring lock (2 waiting locks)"
      retriable := some false })]
  released := [0]

/-- The lock is handed over to the call that waits. -/
theorem run_handOver : run step { description := none } handOver = some handedOver := by decide

/-- A lock that is handed over is safe. -/
theorem lockSafety_handOver :
    run step { description := none } handOver = some handedOver ∧
    (∀ first second, handedOver.Holds first → handedOver.Holds second → first = second) ∧
    handedOver.granted.Pairwise (· < ·) ∧
    (∀ earlier later, earlier < later → later ∈ handedOver.granted →
      ¬ handedOver.Waits earlier) ∧
    (∀ call ∈ handedOver.granted, call ∉ handedOver.rejected.map Prod.fst ∧
      call ∉ handedOver.timers) ∧
    (handedOver.lock.locked = false → ∀ call, ¬ handedOver.Waits call) :=
  ⟨run_handOver, lockSafety run_handOver⟩

end Calls

end Lock

end KafkaJs.Utils
