import KafkaJs.Producer.Connecting
import Mathlib.Algebra.GroupWithZero.Nat

/-!
# Safety of the sends of a connecting producer

`safe_of_ready` is the main result: where every send waits for the producer id, no producer id is
answered in the middle of a task, and no request fails after a rotation of its sequences, every
produce request carries a producer id, no sequence becomes negative, and every lock is released by
the task that holds it. `unsafe_earlySend` is a send that comes before the producer id.

The invariant has two halves. `Locked` says that the lock of every task is still the one of its
broker, and that the locks are held and awaited as the tasks say. `Numbered` says that every
sequence is at least what the requests in flight would give back.
-/

namespace KafkaJs.Producer.Connecting

open Utils Execution

variable {τ : Type}

/-! ## Tasks -/

section Tasks

variable {state : State τ} {index : Nat} {old : Task τ} {phase : TaskPhase τ}

/-- The task at the index holds the lock. -/
def Holds (tasks : List (Task τ)) (lock index : Nat) : Prop :=
  ∃ task, tasks[index]? = some task ∧ task.phase.holds lock = true

/-- The task at the index waits for the lock. -/
def Waits (tasks : List (Task τ)) (lock index : Nat) : Prop :=
  ∃ task, tasks[index]? = some task ∧ task.phase.waits lock = true

/-- The tasks after the phase of one was set. -/
theorem getElem?_setPhase (state : State τ) (index : Nat) (phase : TaskPhase τ) (other : Nat) :
    (state.setPhase index phase).tasks[other]? =
      if other = index then (state.tasks[other]?).map fun task => task.setPhase phase
      else state.tasks[other]? := by
  show (state.tasks.modify index _)[other]? = _
  rw [List.getElem?_modify]
  by_cases heq : index = other
  · simp [heq]
  · simp [heq, Ne.symm heq]

/-- A task after the phase of one was set is an old one or this one. -/
theorem mem_setPhase {task : Task τ} (h : task ∈ (state.setPhase index phase).tasks) :
    task ∈ state.tasks ∨ ∃ old, state.tasks[index]? = some old ∧ task = old.setPhase phase := by
  obtain ⟨other, hother⟩ := List.mem_iff_getElem?.mp h
  rw [getElem?_setPhase] at hother
  split at hother
  · next heq =>
      obtain ⟨old, hold, rfl⟩ := Option.map_eq_some_iff.mp hother
      exact Or.inr ⟨old, heq ▸ hold, rfl⟩
  · exact Or.inl (List.mem_of_getElem? hother)

/-- Who holds a lock after a phase was set. -/
theorem holds_setPhase (hold : state.tasks[index]? = some old) (lock other : Nat) :
    Holds (state.setPhase index phase).tasks lock other ↔
      if other = index then phase.holds lock = true else Holds state.tasks lock other := by
  rw [Holds, getElem?_setPhase]
  split
  · next heq =>
      subst heq
      rw [hold]
      refine ⟨?_, fun hholds => ⟨old.setPhase phase, rfl, hholds⟩⟩
      rintro ⟨_, ⟨⟩, hholds⟩
      exact hholds
  · exact Iff.rfl

/-- Who waits for a lock after a phase was set. -/
theorem waits_setPhase (hold : state.tasks[index]? = some old) (lock other : Nat) :
    Waits (state.setPhase index phase).tasks lock other ↔
      if other = index then phase.waits lock = true else Waits state.tasks lock other := by
  rw [Waits, getElem?_setPhase]
  split
  · next heq =>
      subst heq
      rw [hold]
      refine ⟨?_, fun hwaits => ⟨old.setPhase phase, rfl, hwaits⟩⟩
      rintro ⟨_, ⟨⟩, hwaits⟩
      exact hwaits
  · exact Iff.rfl

/-- The tasks after another one was started. -/
theorem getElem?_append_one {tasks : List (Task τ)} {new task : Task τ} {other : Nat} :
    (tasks ++ [new])[other]? = some task ↔
      tasks[other]? = some task ∨ other = tasks.length ∧ task = new := by
  rw [List.getElem?_append]
  split
  · next hlt =>
      refine ⟨Or.inl, fun h => h.resolve_right fun ⟨heq, _⟩ => ?_⟩
      omega
  · next hge =>
      have hnone : tasks[other]? = none := List.getElem?_eq_none (by omega)
      rw [hnone, List.getElem?_singleton]
      constructor
      · intro h
        split at h
        · cases h
          exact Or.inr ⟨by omega, rfl⟩
        · cases h
      · rintro (hsome | ⟨rfl, rfl⟩)
        · cases hsome
        · simp

/-- A task with a property is an old one or the new one. -/
theorem exists_append_one {property : Task τ → Prop} (tasks : List (Task τ)) (new : Task τ)
    (other : Nat) :
    (∃ task, (tasks ++ [new])[other]? = some task ∧ property task) ↔
      (∃ task, tasks[other]? = some task ∧ property task) ∨
        property new ∧ other = tasks.length := by
  constructor
  · intro h
    obtain ⟨task, hsome, hproperty⟩ := h
    rcases getElem?_append_one.mp hsome with hold | ⟨hlast, rfl⟩
    · exact Or.inl ⟨task, hold, hproperty⟩
    · exact Or.inr ⟨hproperty, hlast⟩
  · intro h
    rcases h with ⟨task, hsome, hproperty⟩ | ⟨hproperty, hlast⟩
    · exact ⟨task, getElem?_append_one.mpr (Or.inl hsome), hproperty⟩
    · exact ⟨new, getElem?_append_one.mpr (Or.inr ⟨hlast, rfl⟩), hproperty⟩

/-- Who holds a lock after another task was started. -/
theorem holds_append (tasks : List (Task τ)) (new : Task τ) (lock other : Nat) :
    Holds (tasks ++ [new]) lock other ↔
      Holds tasks lock other ∨ new.phase.holds lock = true ∧ other = tasks.length :=
  exists_append_one tasks new other

/-- Who waits for a lock after another task was started. -/
theorem waits_append (tasks : List (Task τ)) (new : Task τ) (lock other : Nat) :
    Waits (tasks ++ [new]) lock other ↔
      Waits tasks lock other ∨ new.phase.waits lock = true ∧ other = tasks.length :=
  exists_append_one tasks new other

/-- A task that holds a lock has not ended and does not wait for it. -/
theorem TaskPhase.not_ended_of_holds {lock : Nat} (h : phase.holds lock = true) :
    phase.isEnded = false ∧ phase.lock = some lock ∧ phase.waits lock = false := by
  cases phase with
  | acquired held | producing held rotations => exact ⟨rfl, of_decide_eq_true h, rfl⟩
  | waiting awaited | ended => cases h

/-- A task that waits for a lock does nothing else. -/
theorem TaskPhase.not_ended_of_waits {lock : Nat} (h : phase.waits lock = true) :
    phase = .waiting lock := by
  cases phase with
  | waiting awaited => rw [of_decide_eq_true h]
  | acquired held | producing held rotations | ended => cases h

/-- A request in flight after a task went on without one was in flight before. -/
theorem mem_of_setPhase (hphase : ∀ lock claimed, phase ≠ .producing lock claimed) {task : Task τ}
    (hmem : task ∈ (state.setPhase index phase).tasks)
    (hproducing : ∃ lock claimed, task.phase = .producing lock claimed) : task ∈ state.tasks := by
  obtain ⟨lock, claimed, hproducing⟩ := hproducing
  rcases mem_setPhase hmem with hsame | ⟨old, -, rfl⟩
  · exact hsame
  · exact absurd hproducing (hphase lock claimed)

end Tasks

/-! ## The locks -/

/-- The lock of a task is the one that its broker has, and every lock is held and awaited as the
tasks say. -/
structure Locked (state : State τ) : Prop where
  initialized : ∀ task ∈ state.tasks, task.phase.isEnded = false → state.isInitialized = true
  current : ∀ task ∈ state.tasks, task.phase.isEnded = false →
    ∃ lock, task.phase.lock = some lock ∧ state.brokerMutexLocks task.nodeId = some lock
  serves : ∀ lock, (state.locks lock).Serves (Holds state.tasks lock) (Waits state.tasks lock)
  releases : ∀ release ∈ state.releases, release.Own

section Locks

variable {state : State τ} {index : Nat} {task : Task τ}

/-- A new task takes a lock, or waits for it. -/
theorem serves_acquire {locks : Nat → Lock Nat} {tasks : List (Task τ)}
    (h : ∀ lock, (locks lock).Serves (Holds tasks lock) (Waits tasks lock)) (lockId : Nat)
    {new : Task τ} (hphase : new.phase =
      if ((locks lockId).acquire tasks.length).2 then .acquired (some lockId)
      else .waiting lockId) (lock : Nat) :
    (Function.update locks lockId ((locks lockId).acquire tasks.length).1 lock).Serves
      (Holds (tasks ++ [new]) lock) (Waits (tasks ++ [new]) lock) := by
  have hnew : ¬ Waits tasks lockId tasks.length := by
    rintro ⟨task, hsome, -⟩
    have hlt := (List.getElem?_eq_some_iff.mp hsome).1
    omega
  have hholds : new.phase.holds lock = true ↔
      lock = lockId ∧ ((locks lockId).acquire tasks.length).2 = true := by
    rw [hphase]
    split
    · next hacquired => simp [TaskPhase.holds, hacquired, eq_comm]
    · next hacquired => simp [TaskPhase.holds, hacquired]
  have hwaits : new.phase.waits lock = true ↔
      lock = lockId ∧ ((locks lockId).acquire tasks.length).2 = false := by
    rw [hphase]
    split
    · next hacquired => simp [TaskPhase.waits, hacquired]
    · next hacquired => simp [TaskPhase.waits, hacquired, eq_comm]
  by_cases hlock : lock = lockId
  · subst hlock
    rw [Function.update_self]
    refine ((h lock).acquire hnew).congr (fun caller => ?_) fun caller => ?_
    · rw [holds_append, hholds]
      simp
    · rw [waits_append, hwaits]
      simp
  · rw [Function.update_of_ne hlock]
    refine (h lock).congr (fun caller => ?_) fun caller => ?_
    · rw [holds_append, hholds]
      simp [hlock]
    · rw [waits_append, hwaits]
      simp [hlock]

/-- A new task holds the lock of its broker, or waits for it. -/
theorem Locked.acquireBrokerLock (h : Locked state) (hinitialized : state.isInitialized = true)
    (nodeId : Int) (entries : List (τ × Nat)) :
    Locked (state.acquireBrokerLock nodeId entries) := by
  unfold State.acquireBrokerLock
  rw [if_pos hinitialized]
  refine ⟨fun _ _ _ => hinitialized, fun task hmem hended => ?_,
    serves_acquire h.serves ((state.brokerMutexLocks nodeId).getD state.nextLock) rfl, h.releases⟩
  rcases List.mem_append.mp hmem with hold | hlast
  · obtain ⟨held, hheld, hcurrent⟩ := h.current task hold hended
    refine ⟨held, hheld, ?_⟩
    show Function.update state.brokerMutexLocks nodeId _ task.nodeId = some held
    by_cases hnode : task.nodeId = nodeId
    · rw [hnode, Function.update_self, ← hnode, hcurrent]
      rfl
    · rw [Function.update_of_ne hnode]
      exact hcurrent
  · cases List.mem_singleton.mp hlast
    refine ⟨_, ?_, Function.update_self _ _ _⟩
    show TaskPhase.lock (if _ then _ else _) = _
    split <;> rfl

/-- A task that has the lock goes on with it. -/
theorem Locked.setPhase (h : Locked state) (hold : state.tasks[index]? = some task)
    {phase : TaskPhase τ} (hended : task.phase.isEnded = false)
    (hlock : phase.lock = task.phase.lock)
    (hholds : ∀ lock, phase.holds lock = task.phase.holds lock)
    (hwaits : ∀ lock, phase.waits lock = task.phase.waits lock) :
    Locked (state.setPhase index phase) := by
  have htask := List.mem_of_getElem? hold
  refine ⟨fun other hmem hother => ?_, fun other hmem hother => ?_, fun lock => ?_, h.releases⟩
  · rcases mem_setPhase hmem with hsame | ⟨old, hsome, rfl⟩
    · exact h.initialized other hsame hother
    · cases hold.symm.trans hsome
      exact h.initialized task htask hended
  · rcases mem_setPhase hmem with hsame | ⟨old, hsome, rfl⟩
    · exact h.current other hsame hother
    · cases hold.symm.trans hsome
      obtain ⟨lock, hheld, hcurrent⟩ := h.current task htask hended
      exact ⟨lock, hlock.trans hheld, hcurrent⟩
  · refine (h.serves lock).congr (fun caller => ?_) fun caller => ?_
    · rw [holds_setPhase hold]
      split
      · next heq =>
          subst heq
          rw [hholds]
          exact ⟨fun hheld => ⟨task, hold, hheld⟩, fun ⟨_, hsome, hheld⟩ => by
            cases hold.symm.trans hsome
            exact hheld⟩
      · exact Iff.rfl
    · rw [waits_setPhase hold]
      split
      · next heq =>
          subst heq
          rw [hwaits]
          exact ⟨fun hawaited => ⟨task, hold, hawaited⟩, fun ⟨_, hsome, hawaited⟩ => by
            cases hold.symm.trans hsome
            exact hawaited⟩
      · exact Iff.rfl

/-- What a task that is not at the index has, it keeps when the one at the index ends. -/
theorem Locked.current_ended (h : Locked state) {other : Task τ}
    (hmem : other ∈ (state.setPhase index .ended).tasks) (hended : other.phase.isEnded = false) :
    state.isInitialized = true ∧
      ∃ lock, other.phase.lock = some lock ∧ state.brokerMutexLocks other.nodeId = some lock := by
  rcases mem_setPhase hmem with hsame | ⟨old, hsome, rfl⟩
  · exact ⟨h.initialized other hsame hended, h.current other hsame hended⟩
  · cases hended

/-- A waiter gives up. -/
theorem Locked.lockTimeout (h : Locked state) {lockId : Nat}
    (hold : state.tasks[index]? = some task) (hphase : task.phase = .waiting lockId) :
    Locked { state.setPhase index .ended with
      locks := Function.update state.locks lockId ((state.locks lockId).expire index) } := by
  refine ⟨fun other hmem hother => (h.current_ended hmem hother).1,
    fun other hmem hother => (h.current_ended hmem hother).2, fun lock => ?_, h.releases⟩
  have hnot : ∀ lock, ¬ Holds state.tasks lock index := by
    rintro lock ⟨other, hsome, hholds⟩
    cases hold.symm.trans hsome
    rw [hphase] at hholds
    cases hholds
  show (Function.update state.locks lockId _ lock).Serves
    (Holds (state.setPhase index .ended).tasks lock)
    (Waits (state.setPhase index .ended).tasks lock)
  have hholds : ∀ caller, Holds (state.setPhase index .ended).tasks lock caller ↔
      Holds state.tasks lock caller := by
    intro caller
    rw [holds_setPhase hold]
    split
    · next heq => exact iff_of_false nofun (heq ▸ hnot lock)
    · exact Iff.rfl
  by_cases hlock : lock = lockId
  · subst hlock
    rw [Function.update_self]
    refine ((h.serves lock).expire index).congr hholds fun caller => ?_
    rw [waits_setPhase hold]
    split
    · next heq => exact iff_of_false nofun fun hother => hother.2 heq
    · next hne => exact ⟨fun hwaits => ⟨hwaits, hne⟩, fun hother => hother.1⟩
  · rw [Function.update_of_ne hlock]
    refine (h.serves lock).congr hholds fun caller => ?_
    rw [waits_setPhase hold]
    split
    · next heq =>
        subst heq
        refine iff_of_false nofun ?_
        rintro ⟨other, hsome, hwaits⟩
        cases hold.symm.trans hsome
        cases hphase.symm.trans (TaskPhase.not_ended_of_waits hwaits)
        exact hlock rfl
    · exact Iff.rfl

/-- The waiter of a released lock. -/
theorem Locked.waiter (h : Locked state) {lockId waiter : Nat}
    (hwaiter : (state.locks lockId).release.2 = some waiter) :
    ∃ task, state.tasks[waiter]? = some task ∧ task.phase = .waiting lockId := by
  obtain ⟨task, hsome, hwaits⟩ := ((h.serves lockId).waiting waiter).mp
    (Lock.mem_waiting_of_release hwaiter)
  exact ⟨task, hsome, TaskPhase.not_ended_of_waits hwaits⟩

/-- The holder of a lock ends, and the first waiter takes the lock. -/
theorem Locked.serves_release (h : Locked state) {lockId : Nat}
    (hold : state.tasks[index]? = some task) (hholds : task.phase.holds lockId = true)
    (lock : Nat) :
    (Function.update state.locks lockId (state.locks lockId).release.1 lock).Serves
      (Holds ((state.setPhase index .ended).grant lockId (state.locks lockId).release.2).tasks lock)
      (Waits ((state.setPhase index .ended).grant lockId
        (state.locks lockId).release.2).tasks lock) := by
  obtain ⟨-, hheld, hnotWaits⟩ := TaskPhase.not_ended_of_holds hholds
  have hindex : Holds state.tasks lockId index := ⟨task, hold, hholds⟩
  -- after the task has ended, nobody holds the lock, and the other locks are as before
  have hfree : ∀ caller, ¬ Holds (state.setPhase index .ended).tasks lockId caller := by
    intro caller hcaller
    rw [holds_setPhase hold] at hcaller
    split at hcaller
    · cases hcaller
    · next hne => exact hne ((h.serves lockId).exclusive caller index hcaller hindex)
  have hwaits : ∀ other caller, Waits (state.setPhase index .ended).tasks other caller ↔
      Waits state.tasks other caller := by
    intro other caller
    rw [waits_setPhase hold]
    split
    · next heq =>
        subst heq
        refine iff_of_false nofun ?_
        rintro ⟨same, hsome, hawaited⟩
        cases hold.symm.trans hsome
        rw [TaskPhase.not_ended_of_waits hawaited] at hholds
        cases hholds
    · exact Iff.rfl
  have hother : ∀ other, other ≠ lockId → ∀ caller,
      Holds (state.setPhase index .ended).tasks other caller ↔ Holds state.tasks other caller := by
    intro other hne caller
    rw [holds_setPhase hold]
    split
    · next heq =>
        subst heq
        refine iff_of_false nofun ?_
        rintro ⟨same, hsome, hsame⟩
        cases hold.symm.trans hsome
        have hlock := (TaskPhase.not_ended_of_holds hsame).2.1
        exact hne (Option.some.inj (hlock.symm.trans hheld))
    · exact Iff.rfl
  have hrelease := (h.serves lockId).release
  cases hwaiter : (state.locks lockId).release.2 with
  | none =>
      rw [hwaiter] at hrelease
      by_cases hlock : lock = lockId
      · subst hlock
        rw [Function.update_self]
        refine hrelease.congr (fun caller => iff_of_false (hfree caller) nofun) fun caller => ?_
        exact (hwaits lock caller).trans ⟨fun hawaits => ⟨hawaits, nofun⟩, fun hawaits => hawaits.1⟩
      · rw [Function.update_of_ne hlock]
        exact (h.serves lock).congr (hother lock hlock) (hwaits lock)
  | some waiter =>
      rw [hwaiter] at hrelease
      obtain ⟨next, hnext, hphase⟩ := h.waiter hwaiter
      have hne : waiter ≠ index := by
        rintro rfl
        cases hold.symm.trans hnext
        rw [hphase] at hholds
        cases hholds
      have hafter : (state.setPhase index .ended).tasks[waiter]? = some next := by
        rw [getElem?_setPhase, if_neg hne]
        exact hnext
      show (Function.update state.locks lockId _ lock).Serves
        (Holds ((state.setPhase index .ended).setPhase waiter _).tasks lock)
        (Waits ((state.setPhase index .ended).setPhase waiter _).tasks lock)
      by_cases hlock : lock = lockId
      · subst hlock
        rw [Function.update_self]
        refine hrelease.congr (fun caller => ?_) fun caller => ?_
        · rw [holds_setPhase hafter]
          split
          · next heq => exact iff_of_true (by simp [TaskPhase.holds]) (congrArg some heq.symm)
          · next hnot =>
              exact iff_of_false (hfree caller) fun heq => hnot (Option.some.inj heq).symm
        · rw [waits_setPhase hafter]
          split
          · next heq => exact iff_of_false nofun fun hawaits => hawaits.2 (congrArg some heq.symm)
          · next hnot =>
              rw [hwaits]
              exact ⟨fun hawaits => ⟨hawaits, fun heq => hnot (Option.some.inj heq).symm⟩,
                fun hawaits => hawaits.1⟩
      · rw [Function.update_of_ne hlock]
        refine (h.serves lock).congr (fun caller => ?_) fun caller => ?_
        · rw [holds_setPhase hafter]
          split
          · next heq =>
              subst heq
              refine iff_of_false (by simp [TaskPhase.holds, Ne.symm hlock]) ?_
              rintro ⟨same, hsome, hsame⟩
              cases hnext.symm.trans hsome
              rw [hphase] at hsame
              cases hsame
          · exact hother lock hlock caller
        · rw [waits_setPhase hafter]
          split
          · next heq =>
              subst heq
              refine iff_of_false nofun ?_
              rintro ⟨same, hsome, hsame⟩
              cases hnext.symm.trans hsome
              cases hphase.symm.trans (TaskPhase.not_ended_of_waits hsame)
              exact hlock rfl
          · exact hwaits lock caller

/-- `releaseBrokerLock` once the producer is initialised and the broker has a lock. -/
theorem releaseBrokerLock_eq (hinitialized : state.isInitialized = true) {lockId : Nat}
    (hcurrent : state.brokerMutexLocks task.nodeId = some lockId) :
    state.releaseBrokerLock index task = { state with
      tasks := ((state.setPhase index .ended).grant lockId (state.locks lockId).release.2).tasks
      locks := Function.update state.locks lockId (state.locks lockId).release.1
      releases := state.releases ++
        [⟨index, task.phase.lock, some lockId, state.holders lockId⟩] } := by
  unfold State.releaseBrokerLock
  rw [if_pos hinitialized, hcurrent]
  dsimp only
  cases (state.locks lockId).release.2 <;> rfl

/-- A task ends, and releases the lock that it holds. -/
theorem Locked.releaseBrokerLock (h : Locked state) (hold : state.tasks[index]? = some task)
    (hproducing : ∃ lock rotations, task.phase = .producing lock rotations) :
    Locked (state.releaseBrokerLock index task) := by
  obtain ⟨held, rotations, hphase⟩ := hproducing
  have hmem := List.mem_of_getElem? hold
  have hended : task.phase.isEnded = false := by rw [hphase]; rfl
  have hinitialized := h.initialized task hmem hended
  obtain ⟨lockId, hlock, hcurrent⟩ := h.current task hmem hended
  have hholds : task.phase.holds lockId = true := by
    rw [hphase] at hlock ⊢
    exact decide_eq_true hlock
  rw [releaseBrokerLock_eq hinitialized hcurrent]
  have hserves := h.serves_release hold hholds
  have hgranted : ∀ other ∈
      ((state.setPhase index .ended).grant lockId (state.locks lockId).release.2).tasks,
      other.phase.isEnded = false →
      state.isInitialized = true ∧
        ∃ lock, other.phase.lock = some lock ∧ state.brokerMutexLocks other.nodeId = some lock := by
    intro other hother hnot
    cases hwaiter : (state.locks lockId).release.2 with
    | none =>
        rw [hwaiter] at hother
        exact h.current_ended hother hnot
    | some waiter =>
        rw [hwaiter] at hother
        rcases mem_setPhase hother with hsame | ⟨old, hsome, rfl⟩
        · exact h.current_ended hsame hnot
        · -- the lock that the waiter takes is the one that it waited for
          obtain ⟨next, hnext, hwaiting⟩ := h.waiter hwaiter
          have hne : waiter ≠ index := by
            rintro rfl
            cases hold.symm.trans hnext
            cases hphase.symm.trans hwaiting
          rw [getElem?_setPhase, if_neg hne] at hsome
          cases hnext.symm.trans hsome
          obtain ⟨lock, hawaited, hsame⟩ := h.current _ (List.mem_of_getElem? hnext)
            (by rw [hwaiting]; rfl)
          rw [hwaiting] at hawaited
          cases hawaited
          exact ⟨hinitialized, lockId, rfl, hsame⟩
  refine ⟨fun other hother hnot => (hgranted other hother hnot).1, fun other hother hnot =>
    (hgranted other hother hnot).2, hserves, fun release hrelease => ?_⟩
  rcases List.mem_append.mp hrelease with hearlier | hnew
  · exact h.releases release hearlier
  · cases List.mem_singleton.mp hnew
    refine ⟨lockId, hlock, rfl, fun holder hholder => ?_⟩
    obtain ⟨-, hany⟩ := List.mem_filter.mp hholder
    obtain ⟨other, hsome, hsame⟩ := (Option.any_eq_true _ _).mp hany
    exact (h.serves lockId).exclusive holder index ⟨other, hsome, hsame⟩ ⟨task, hold, hholds⟩

end Locks

/-! ## The sequences -/

section Sequences

variable [DecidableEq τ] {state : State τ} {index : Nat} {task : Task τ}

/-- The number of messages of a request for a topic-partition. -/
def recordCount (entries : List (τ × Nat)) (topicPartition : τ) : Nat :=
  ((entries.filter fun entry => entry.1 = topicPartition).map Prod.snd).sum

/-- The records of a topic-partition, entry by entry. -/
theorem recordCount_cons (entry : τ × Nat) (entries : List (τ × Nat)) (topicPartition : τ) :
    recordCount (entry :: entries) topicPartition =
      (if entry.1 = topicPartition then entry.2 else 0) + recordCount entries topicPartition := by
  unfold recordCount
  rw [List.filter_cons]
  by_cases heq : entry.1 = topicPartition
  · simp [heq]
  · simp [heq]

/-- Without an entry there are no records. -/
theorem recordCount_eq_zero {entries : List (τ × Nat)} {topicPartition : τ}
    (h : ∀ entry ∈ entries, entry.1 ≠ topicPartition) : recordCount entries topicPartition = 0 := by
  unfold recordCount
  rw [List.filter_eq_nil_iff.mpr fun entry hmem => by simpa using h entry hmem]
  rfl

/-- A request claims sequences from zero on, and a sequence that it does not rotate advances by
the number of its messages. -/
theorem claimSequences_spec (entries : List (τ × Nat)) {producerSequence : τ → Int}
    {rotations : τ → Nat} (hnonneg : ∀ topicPartition, 0 ≤ producerSequence topicPartition)
    (hsmall : ∀ topicPartition, producerSequence topicPartition < int32MaxValue) :
    (∀ sequence ∈ (claimSequences true producerSequence entries).1, 0 ≤ sequence) ∧
    ∀ topicPartition,
      0 ≤ (claimSequences true producerSequence entries).2 topicPartition ∧
      (claimSequences true producerSequence entries).2 topicPartition < int32MaxValue ∧
      rotations topicPartition ≤ countRotations producerSequence rotations entries topicPartition ∧
      (countRotations producerSequence rotations entries topicPartition =
          rotations topicPartition →
        (claimSequences true producerSequence entries).2 topicPartition =
          producerSequence topicPartition + recordCount entries topicPartition) := by
  induction entries generalizing producerSequence rotations with
  | nil =>
      exact ⟨nofun, fun topicPartition => ⟨hnonneg topicPartition, hsmall topicPartition,
        Nat.le_refl _, fun _ => (Int.add_zero _).symm⟩⟩
  | cons entry entries ih =>
      obtain ⟨first, count⟩ := entry
      let advanced := updateSequence true producerSequence first count
      let rotated := if int32MaxValue ≤ producerSequence first + count then
        Function.update rotations first (rotations first + 1) else rotations
      have hself : advanced first = rotate (producerSequence first) count :=
        Function.update_self _ _ _
      have hother : ∀ topicPartition, topicPartition ≠ first →
          advanced topicPartition = producerSequence topicPartition :=
        fun _ hne => Function.update_of_ne hne _ _
      -- rotating at the greatest sequence keeps the claimed ones below it
      have hrotate : 0 ≤ rotate (producerSequence first) count ∧
          rotate (producerSequence first) count < int32MaxValue := by
        have hstart := hnonneg first
        unfold rotate
        split
        · exact ⟨Int.le_refl 0, by decide⟩
        · omega
      have hadvancedNonneg : ∀ topicPartition, 0 ≤ advanced topicPartition := by
        intro topicPartition
        by_cases heq : topicPartition = first
        · rw [heq, hself]
          exact hrotate.1
        · rw [hother topicPartition heq]
          exact hnonneg topicPartition
      have hadvancedSmall : ∀ topicPartition, advanced topicPartition < int32MaxValue := by
        intro topicPartition
        by_cases heq : topicPartition = first
        · rw [heq, hself]
          exact hrotate.2
        · rw [hother topicPartition heq]
          exact hsmall topicPartition
      obtain ⟨hfirsts, hrest⟩ := @ih advanced rotated hadvancedNonneg hadvancedSmall
      refine ⟨fun sequence hmem => ?_, fun topicPartition => ?_⟩
      · rcases List.mem_cons.mp hmem with rfl | hlater
        · exact hnonneg first
        · exact hfirsts sequence hlater
      · obtain ⟨hle, hlt, hmono, hcount⟩ := hrest topicPartition
        -- of this entry: its own partition advances or rotates, every other one stays
        have hrotated : rotations topicPartition ≤ rotated topicPartition ∧
            (rotated topicPartition = rotations topicPartition →
              advanced topicPartition = producerSequence topicPartition +
                (if first = topicPartition then count else 0 : Nat)) := by
          by_cases heq : topicPartition = first
          · subst heq
            rw [hself, if_pos rfl]
            by_cases hmax : int32MaxValue ≤ producerSequence topicPartition + count
            · have hnow : rotated topicPartition = rotations topicPartition + 1 := by
                simp [rotated, hmax]
              omega
            · have hnow : rotated topicPartition = rotations topicPartition := by
                simp [rotated, hmax]
              exact ⟨Nat.le_of_eq hnow.symm, fun _ => rotate_of_lt (by omega)⟩
          · have hnow : rotated topicPartition = rotations topicPartition := by
              simp only [rotated]
              split
              · exact Function.update_of_ne heq _ _
              · rfl
            rw [hother topicPartition heq, if_neg (Ne.symm heq)]
            exact ⟨Nat.le_of_eq hnow.symm, fun _ => (Int.add_zero _).symm⟩
        refine ⟨hle, hlt, Nat.le_trans hrotated.1 hmono, fun hsame => ?_⟩
        -- if nothing has rotated in the end, this entry and the rest have not
        have hsameRest : countRotations advanced rotated entries topicPartition =
            rotations topicPartition := hsame
        show (claimSequences true advanced entries).2 topicPartition = _
        rw [hcount (by omega), hrotated.2 (by omega), recordCount_cons]
        push_cast
        omega

/-- A failed request gives its sequences back. -/
theorem giveBackSequences_apply (entries : List (τ × Nat)) {producerSequence : τ → Int}
    (hsmall : ∀ topicPartition, producerSequence topicPartition < int32MaxValue)
    (topicPartition : τ) :
    giveBackSequences true producerSequence entries topicPartition =
      producerSequence topicPartition - recordCount entries topicPartition := by
  induction entries generalizing producerSequence with
  | nil => exact (Int.sub_zero _).symm
  | cons entry entries ih =>
      have hupdate : ∀ other, updateSequence true producerSequence entry.1 (-entry.2) other =
          producerSequence other - (if entry.1 = other then entry.2 else 0 : Nat) := by
        intro other
        show Function.update producerSequence entry.1 _ other = _
        by_cases heq : other = entry.1
        · subst heq
          have hlt := hsmall entry.1
          rw [Function.update_self, if_pos rfl]
          exact (rotate_of_lt (by show producerSequence entry.1 + _ < _; omega)).trans
            (Int.sub_eq_add_neg).symm
        · rw [Function.update_of_ne heq, if_neg (Ne.symm heq)]
          exact (Int.sub_zero _).symm
      have hrest := @ih (updateSequence true producerSequence entry.1 (-entry.2)) fun other => by
        have hlt := hsmall other
        rw [hupdate]
        omega
      show giveBackSequences true (updateSequence true producerSequence entry.1 (-entry.2))
        entries topicPartition = _
      rw [hrest, hupdate, recordCount_cons]
      push_cast
      omega

/-- What a request in flight would give back of sequences that were not rotated since. -/
def Task.outstanding (rotations : τ → Nat) (topicPartition : τ) (task : Task τ) : Nat :=
  match task.phase with
  | .producing _ claimed =>
      if claimed topicPartition = rotations topicPartition then
        recordCount task.entries topicPartition
      else 0
  | .waiting _ | .acquired _ | .ended => 0

/-- What all requests in flight would give back. -/
def outstanding (rotations : τ → Nat) (topicPartition : τ) (tasks : List (Task τ)) : Nat :=
  (tasks.map (Task.outstanding rotations topicPartition)).sum

/-- If no task has records outstanding, there are none. -/
theorem outstanding_eq_zero {rotations : τ → Nat} {topicPartition : τ} {tasks : List (Task τ)}
    (h : ∀ task ∈ tasks, task.outstanding rotations topicPartition = 0) :
    outstanding rotations topicPartition tasks = 0 := by
  induction tasks with
  | nil => rfl
  | cons task tasks ih =>
      have hrest := ih fun other hother => h other (List.mem_cons_of_mem _ hother)
      have hself := h task List.mem_cons_self
      simp only [outstanding, List.map_cons, List.sum_cons] at hrest ⊢
      omega

/-- Changing one element changes a sum by the difference. -/
theorem sum_map_modify {α : Type} (f : α → Nat) (change : α → α) {items : List α} {index : Nat}
    {old : α} (hold : items[index]? = some old) :
    ((items.modify index change).map f).sum + f old = (items.map f).sum + f (change old) := by
  induction items generalizing index with
  | nil => cases hold
  | cons item items ih =>
      cases index with
      | zero =>
          cases hold
          simp only [List.modify_zero_cons, List.map_cons, List.sum_cons]
          omega
      | succ index =>
          have hrest := ih hold
          simp only [List.modify_succ_cons, List.map_cons, List.sum_cons]
          omega

/-- What is outstanding changes by what is outstanding of the task whose phase is set. -/
theorem outstanding_setPhase (rotations : τ → Nat) (topicPartition : τ)
    (hold : state.tasks[index]? = some task) (phase : TaskPhase τ) :
    outstanding rotations topicPartition (state.setPhase index phase).tasks +
        task.outstanding rotations topicPartition =
      outstanding rotations topicPartition state.tasks +
        (task.setPhase phase).outstanding rotations topicPartition :=
  sum_map_modify _ _ hold

/-- Every sequence is at least what the requests in flight would give back, and below the maximum;
and the requests so far carry a producer id and no negative sequence. -/
structure Numbered (state : State τ) : Prop where
  requests : ∀ request ∈ state.requests, request.producerId ≠ noProducerId ∧
    ∀ sequence ∈ request.firstSequences, 0 ≤ sequence
  enough : ∀ topicPartition, (outstanding state.rotations topicPartition state.tasks : Int) ≤
    state.producerSequence topicPartition
  small : ∀ topicPartition, state.producerSequence topicPartition < int32MaxValue
  claimed : ∀ task ∈ state.tasks, ∀ lock rotations, task.phase = .producing lock rotations →
    ∀ topicPartition, rotations topicPartition ≤ state.rotations topicPartition

/-- Sequences are not negative. -/
theorem Numbered.nonneg (h : Numbered state) (topicPartition : τ) :
    0 ≤ state.producerSequence topicPartition :=
  Int.le_trans (Int.natCast_nonneg _) (h.enough topicPartition)

/-- What is outstanding after another task was started. -/
theorem outstanding_append (rotations : τ → Nat) (topicPartition : τ) (tasks : List (Task τ))
    (new : Task τ) :
    outstanding rotations topicPartition (tasks ++ [new]) =
      outstanding rotations topicPartition tasks + new.outstanding rotations topicPartition := by
  simp [outstanding]

/-- Acquiring a lock keeps the sequences numbered. -/
theorem Numbered.acquireBrokerLock (h : Numbered state) (nodeId : Int)
    (entries : List (τ × Nat)) : Numbered (state.acquireBrokerLock nodeId entries) := by
  have hnew : ∀ {next : State τ} {new : Task τ}, next.tasks = state.tasks ++ [new] →
      (∀ lock rotations, new.phase ≠ .producing lock rotations) → next.requests = state.requests →
      next.producerSequence = state.producerSequence → next.rotations = state.rotations →
      Numbered next := by
    intro next new htasks hphase hrequests hsequence hrotations
    have hnone : ∀ topicPartition, new.outstanding state.rotations topicPartition = 0 := by
      intro topicPartition
      unfold Task.outstanding
      split
      · next lock rotations hproducing => exact absurd hproducing (hphase lock rotations)
      · rfl
      · rfl
      · rfl
    refine ⟨hrequests ▸ h.requests, fun topicPartition => ?_, hsequence ▸ h.small, ?_⟩
    · rw [htasks, hsequence, hrotations, outstanding_append, hnone]
      exact h.enough topicPartition
    · intro task hmem lock rotations hproducing
      rw [htasks] at hmem
      rw [hrotations]
      rcases List.mem_append.mp hmem with hold | hlast
      · exact h.claimed task hold lock rotations hproducing
      · cases List.mem_singleton.mp hlast
        exact absurd hproducing (hphase lock rotations)
  unfold State.acquireBrokerLock
  split
  · dsimp only
    refine hnew rfl ?_ rfl rfl rfl
    intro lock rotations
    dsimp only
    split
    · exact nofun
    · exact nofun
  · exact hnew rfl nofun rfl rfl rfl

/-- A task without a request in flight gives nothing back. -/
theorem outstanding_setPhase_le (rotations : τ → Nat) (topicPartition : τ) (state : State τ)
    (index : Nat) {phase : TaskPhase τ}
    (hphase : ∀ lock claimed, phase ≠ .producing lock claimed) :
    outstanding rotations topicPartition (state.setPhase index phase).tasks ≤
      outstanding rotations topicPartition state.tasks := by
  cases hold : state.tasks[index]? with
  | none =>
      have hlength := List.getElem?_eq_none_iff.mp hold
      have hsame : (state.setPhase index phase).tasks = state.tasks :=
        List.modify_eq_self (by omega)
      exact Nat.le_of_eq (congrArg (outstanding rotations topicPartition) hsame)
  | some task =>
      have hsum := outstanding_setPhase rotations topicPartition hold phase
      have hnone : (task.setPhase phase).outstanding rotations topicPartition = 0 := by
        cases phase with
        | producing lock claimed => exact absurd rfl (hphase lock claimed)
        | waiting _ | acquired _ | ended => rfl
      omega

/-- Tasks that go on or end without a request in flight. -/
theorem Numbered.retask (h : Numbered state) {next : State τ}
    (hrequests : next.requests = state.requests) (hrotations : next.rotations = state.rotations)
    (henough : ∀ topicPartition,
      (outstanding state.rotations topicPartition next.tasks : Int) ≤
        next.producerSequence topicPartition)
    (hsmall : ∀ topicPartition, next.producerSequence topicPartition < int32MaxValue)
    (htasks : ∀ task ∈ next.tasks, (∃ lock claimed, task.phase = .producing lock claimed) →
      task ∈ state.tasks) : Numbered next := by
  refine ⟨hrequests ▸ h.requests, ?_, hsmall, fun task hmem lock claimed hproducing => ?_⟩
  · rw [hrotations]
    exact henough
  · rw [hrotations]
    exact h.claimed task (htasks task hmem ⟨lock, claimed, hproducing⟩) lock claimed hproducing

/-- The task ends, and a waiter takes its lock. -/
theorem Numbered.releaseBrokerLock (h : Numbered state) (hinitialized : state.isInitialized = true)
    {lockId : Nat} (hcurrent : state.brokerMutexLocks task.nodeId = some lockId)
    (producerSequence : τ → Int)
    (henough : ∀ topicPartition,
      (outstanding state.rotations topicPartition (state.setPhase index .ended).tasks : Int) ≤
        producerSequence topicPartition)
    (hsmall : ∀ topicPartition, producerSequence topicPartition < int32MaxValue) :
    Numbered (State.releaseBrokerLock { state with producerSequence := producerSequence } index
      task) := by
  rw [@releaseBrokerLock_eq _ { state with producerSequence := producerSequence } index task
    hinitialized lockId hcurrent]
  refine h.retask rfl rfl (fun topicPartition => ?_) hsmall fun other hmem hproducing => ?_
  · refine Int.le_trans (Int.ofNat_le.mpr ?_) (henough topicPartition)
    show outstanding state.rotations topicPartition (State.grant (State.setPhase
      { state with producerSequence := producerSequence } index .ended) lockId
        (state.locks lockId).release.2).tasks ≤ _
    cases (state.locks lockId).release.2 with
    | none => exact Nat.le_refl _
    | some waiter =>
        exact outstanding_setPhase_le state.rotations topicPartition
          (State.setPhase { state with producerSequence := producerSequence } index .ended) waiter
          nofun
  · have hended : other ∈ (state.setPhase index .ended).tasks := by
      change other ∈ (State.grant (State.setPhase
        { state with producerSequence := producerSequence } index .ended) lockId
          (state.locks lockId).release.2).tasks at hmem
      cases hwaiter : (state.locks lockId).release.2 with
      | none =>
          rw [hwaiter] at hmem
          exact hmem
      | some waiter =>
          rw [hwaiter] at hmem
          refine mem_of_setPhase ?_ hmem hproducing
          exact nofun
    refine mem_of_setPhase ?_ hended hproducing
    exact nofun

/-- A request claims its sequences. -/
theorem Numbered.produce (h : Numbered state) (hinitialized : state.isInitialized = true)
    (hold : state.tasks[index]? = some task) {lock : Option Nat}
    (hphase : task.phase = .acquired lock) : Numbered (state.produce index task lock) := by
  obtain ⟨hfirsts, hclaim⟩ := @claimSequences_spec _ _ task.entries state.producerSequence
    state.rotations h.nonneg h.small
  have hproduce : state.produce index task lock =
      { state.setPhase index (.producing lock state.rotations) with
        producerSequence := (claimSequences true state.producerSequence task.entries).2
        requests := state.requests ++
          [⟨state.producerId, (claimSequences true state.producerSequence task.entries).1⟩]
        rotations := countRotations state.producerSequence state.rotations task.entries } := by
    rw [State.produce, hinitialized]
    rfl
  have hclaimed : ∀ other ∈ (state.setPhase index (.producing lock state.rotations)).tasks,
      ∀ held rotations, other.phase = .producing held rotations →
        ∀ topicPartition, rotations topicPartition ≤ state.rotations topicPartition := by
    intro other hmem held rotations hproducing topicPartition
    rcases mem_setPhase hmem with hsame | ⟨old, -, rfl⟩
    · exact h.claimed other hsame held rotations hproducing topicPartition
    · cases hproducing
      exact Nat.le_refl _
  rw [hproduce]
  refine ⟨fun request hmem => ?_, fun topicPartition => ?_,
    fun topicPartition => (hclaim topicPartition).2.1,
    fun other hmem held rotations hproducing topicPartition =>
      Nat.le_trans (hclaimed other hmem held rotations hproducing topicPartition)
        (hclaim topicPartition).2.2.1⟩
  · rcases List.mem_append.mp hmem with hearlier | hnew
    · exact h.requests request hearlier
    · cases List.mem_singleton.mp hnew
      exact ⟨of_decide_eq_true hinitialized, hfirsts⟩
  · obtain ⟨hle, -, hmono, hcount⟩ := hclaim topicPartition
    have htasks : ∀ rotations : τ → Nat,
        rotations topicPartition = state.rotations topicPartition →
        outstanding rotations topicPartition
            (state.setPhase index (.producing lock state.rotations)).tasks =
          outstanding state.rotations topicPartition state.tasks +
            recordCount task.entries topicPartition := by
      intro rotations hsame
      have hsum := outstanding_setPhase rotations topicPartition hold
        (.producing lock state.rotations)
      have hbefore : task.outstanding rotations topicPartition = 0 := by
        rw [Task.outstanding, hphase]
      have hafter : (task.setPhase (.producing lock state.rotations)).outstanding rotations
          topicPartition = recordCount task.entries topicPartition := by
        simp [Task.outstanding, Task.setPhase, hsame]
      have hcongr : outstanding rotations topicPartition state.tasks =
          outstanding state.rotations topicPartition state.tasks := by
        unfold outstanding Task.outstanding
        rw [hsame]
      omega
    show (outstanding (countRotations _ _ _) topicPartition _ : Int) ≤ _
    by_cases hrotated : countRotations state.producerSequence state.rotations task.entries
        topicPartition = state.rotations topicPartition
    · rw [htasks _ hrotated]
      show _ ≤ (claimSequences true state.producerSequence task.entries).2 topicPartition
      rw [hcount hrotated]
      have henough := h.enough topicPartition
      push_cast
      omega
    · -- every request in flight has claimed before the rotation
      have hnone : outstanding (countRotations state.producerSequence state.rotations task.entries)
          topicPartition (state.setPhase index (.producing lock state.rotations)).tasks = 0 := by
        refine outstanding_eq_zero fun other hother => ?_
        unfold Task.outstanding
        split
        · next held rotations hproducing =>
            have hbefore := hclaimed other hother held rotations hproducing topicPartition
            exact if_neg (by omega)
        · rfl
        · rfl
        · rfl
      rw [hnone]
      exact hle

end Sequences

/-! ## The steps -/

variable [DecidableEq τ] {state next : State τ} {event : Event τ}

/-- The halves of the invariant. -/
structure Sound (state : State τ) : Prop where
  locked : Locked state
  numbered : Numbered state

/-- At first nothing is sent and no lock is held. -/
theorem Sound.initial : Sound (State.initial : State τ) := by
  refine ⟨⟨nofun, nofun, fun lock => ?_, nofun⟩, nofun, fun _ => Int.le_refl 0,
    fun _ => by show (0 : Int) < int32MaxValue; decide, nofun⟩
  refine Lock.serves_free.congr (fun caller => iff_of_false ?_ id) fun caller =>
    iff_of_false ?_ id
  · rintro ⟨task, ⟨⟩, -⟩
  · rintro ⟨task, ⟨⟩, -⟩

/-- Only the calls of `connect` go on. -/
theorem Sound.congr (h : Sound state) (hproducerId : next.producerId = state.producerId)
    (hlocks : next.locks = state.locks)
    (hmutex : next.brokerMutexLocks = state.brokerMutexLocks) (htasks : next.tasks = state.tasks)
    (hsequence : next.producerSequence = state.producerSequence)
    (hrequests : next.requests = state.requests) (hreleases : next.releases = state.releases)
    (hrotations : next.rotations = state.rotations) : Sound next := by
  obtain ⟨⟨hinitialized, hcurrent, hserves, hown⟩, ⟨hids, henough, hsmall, hclaimed⟩⟩ := h
  refine ⟨⟨?_, ?_, ?_, ?_⟩, ⟨?_, ?_, ?_, ?_⟩⟩
  · rw [htasks, State.isInitialized, hproducerId]
    exact hinitialized
  · rw [htasks, hmutex]
    exact hcurrent
  · rw [hlocks, htasks]
    exact hserves
  · rw [hreleases]
    exact hown
  · rw [hrequests]
    exact hids
  · rw [hrotations, htasks, hsequence]
    exact henough
  · rw [hsequence]
    exact hsmall
  · rw [htasks, hrotations]
    exact hclaimed

/-- A producer id is answered while there is no task. -/
theorem Sound.producerIdAnswered (h : Sound state)
    (hended : ∀ task ∈ state.tasks, task.phase.isEnded = true) (producerId : Nat) :
    Sound { state with
      initializing := state.initializing - 1
      producerId := producerId
      producerSequence := fun _ => 0
      brokerMutexLocks := fun _ => none } := by
  have hnone : ∀ topicPartition, outstanding state.rotations topicPartition state.tasks = 0 := by
    intro topicPartition
    refine outstanding_eq_zero fun task htask => ?_
    have htaskEnded := hended task htask
    unfold Task.outstanding
    split
    · next hproducing =>
        rw [hproducing] at htaskEnded
        cases htaskEnded
    · rfl
    · rfl
    · rfl
  refine ⟨⟨fun task hmem hnot => ?_, fun task hmem hnot => ?_, h.locked.serves,
    h.locked.releases⟩, h.numbered.retask rfl rfl (fun topicPartition => ?_) (fun _ => by
      show (0 : Int) < int32MaxValue
      decide) fun _ hmem _ => hmem⟩
  · rw [hended task hmem] at hnot
    cases hnot
  · rw [hended task hmem] at hnot
    cases hnot
  · rw [hnone]
    exact Int.le_refl 0

/-- The request of a task is answered, and the task ends. -/
theorem Sound.answered (h : Sound state) {index : Nat} {task : Task τ} {lock : Option Nat}
    {claimed : τ → Nat} (hold : state.tasks[index]? = some task)
    (hphase : task.phase = .producing lock claimed) (ok : Bool)
    (hready : ok = false → ∀ entry ∈ task.entries,
      state.rotations entry.1 = claimed entry.1) :
    Sound (State.releaseBrokerLock { state with
      producerSequence := if ok then state.producerSequence
        else giveBackSequences state.isInitialized state.producerSequence task.entries }
      index task) := by
  have hmem := List.mem_of_getElem? hold
  have hended : task.phase.isEnded = false := by rw [hphase]; rfl
  have hinitialized := h.locked.initialized task hmem hended
  obtain ⟨lockId, -, hcurrent⟩ := h.locked.current task hmem hended
  refine ⟨?_, h.numbered.releaseBrokerLock hinitialized hcurrent _ ?_ ?_⟩
  · exact @Locked.releaseBrokerLock _ { state with producerSequence := _ } index task
      ⟨h.locked.initialized, h.locked.current, h.locked.serves, h.locked.releases⟩ hold
      ⟨lock, claimed, hphase⟩
  · intro topicPartition
    have henough := h.numbered.enough topicPartition
    have hsum := outstanding_setPhase state.rotations topicPartition hold .ended
    have hnone : (task.setPhase .ended).outstanding state.rotations topicPartition = 0 := rfl
    cases ok with
    | true =>
        show _ ≤ state.producerSequence topicPartition
        omega
    | false =>
        show _ ≤ giveBackSequences state.isInitialized state.producerSequence task.entries
          topicPartition
        rw [hinitialized, giveBackSequences_apply task.entries h.numbered.small]
        -- what the task gives back is what it was counted with
        have hself : task.outstanding state.rotations topicPartition =
            recordCount task.entries topicPartition := by
          rw [Task.outstanding, hphase]
          by_cases hentry : ∃ entry ∈ task.entries, entry.1 = topicPartition
          · obtain ⟨entry, hentry, rfl⟩ := hentry
            exact if_pos (hready rfl entry hentry).symm
          · rw [recordCount_eq_zero fun entry hentryMem heq => hentry ⟨entry, hentryMem, heq⟩]
            exact ite_self 0
        omega
  · intro topicPartition
    have hlt := h.numbered.small topicPartition
    cases ok with
    | true => exact hlt
    | false =>
        show giveBackSequences state.isInitialized state.producerSequence task.entries
          topicPartition < _
        rw [hinitialized, giveBackSequences_apply task.entries h.numbered.small]
        omega

/-- Every event that is ready keeps the producer sound. -/
theorem Sound.step (h : Sound state) (hready : Ready state event)
    (hstep : Connecting.step state event = some next) : Sound next := by
  cases event with
  | connect =>
      cases hstep
      exact h.congr rfl rfl rfl rfl rfl rfl rfl rfl
  | clusterConnected | clusterConnectFails | initProducerIdFails =>
      obtain ⟨-, hnext⟩ := Option.ite_none_right_eq_some.mp hstep
      cases hnext
      exact h.congr rfl rfl rfl rfl rfl rfl rfl rfl
  | producerIdAnswered producerId =>
      obtain ⟨-, hnext⟩ := Option.ite_none_right_eq_some.mp hstep
      cases hnext
      exact h.producerIdAnswered hready producerId
  | request nodeId entries =>
      obtain ⟨-, hnext⟩ := Option.ite_none_right_eq_some.mp hstep
      cases hnext
      exact ⟨h.locked.acquireBrokerLock hready nodeId entries,
        h.numbered.acquireBrokerLock nodeId entries⟩
  | lockTimeout index =>
      simp only [Connecting.step] at hstep
      split at hstep
      · next nodeId entries lock hold =>
          cases hstep
          refine ⟨h.locked.lockTimeout hold rfl, h.numbered.retask rfl rfl
            (fun topicPartition => ?_) h.numbered.small fun task hmem hproducing => ?_⟩
          · exact Int.le_trans (Int.ofNat_le.mpr (outstanding_setPhase_le state.rotations
              topicPartition state index nofun)) (h.numbered.enough topicPartition)
          · refine mem_of_setPhase ?_ hmem hproducing
            exact nofun
      · cases hstep
  | produce index =>
      simp only [Connecting.step] at hstep
      split at hstep
      · next task hold =>
          split at hstep
          · next lock hphase =>
              cases hstep
              have hended : task.phase.isEnded = false := by rw [hphase]; rfl
              have hinitialized :=
                h.locked.initialized task (List.mem_of_getElem? hold) hended
              have hlocked : Locked (state.setPhase index (.producing lock state.rotations)) :=
                h.locked.setPhase hold hended (by rw [hphase]; rfl)
                  (fun _ => by rw [hphase]; rfl) fun _ => by rw [hphase]; rfl
              exact ⟨⟨hlocked.initialized, hlocked.current, hlocked.serves, hlocked.releases⟩,
                h.numbered.produce hinitialized hold hphase⟩
          · cases hstep
          · cases hstep
          · cases hstep
      · cases hstep
  | answered index ok =>
      simp only [Connecting.step] at hstep
      split at hstep
      · next task hold =>
          split at hstep
          · next lock claimed hphase =>
              have hanswered := h.answered hold hphase ok fun hfails => by
                subst hfails
                obtain ⟨nodeId, entries, phase⟩ := task
                cases hphase
                simpa [Ready, hold] using hready
              cases ok <;> cases hstep <;> exact hanswered
          · cases hstep
          · cases hstep
          · cases hstep
      · cases hstep

/-! ## Runs of a connecting producer -/

/-- Where sends wait for the producer id, no producer id is answered in the middle of a task, and
no request fails after a rotation of its sequences, every produce request carries a producer id,
no sequence is negative, and every release is of the task's own lock. -/
theorem safe_of_ready {events : List (Event τ)} {final : State τ}
    (hready : Meets step Ready State.initial events)
    (hrun : run step State.initial events = some final) : Safe final := by
  have hsound : Sound final := invariant_of_meets
    (fun _ _ _ h hready hstep => h.step hready hstep) Sound.initial hready hrun
  exact ⟨fun request hmem => (hsound.numbered.requests request hmem).1,
    ⟨hsound.numbered.nonneg, fun request hmem => (hsound.numbered.requests request hmem).2⟩,
    hsound.locked.releases⟩

/-- Two sends to one broker after the producer id is known; the first fails. -/
def laterSends : List (Event Nat) :=
  [.connect, .clusterConnected, .producerIdAnswered 7, .request 0 [(0, 2)], .request 0 [(0, 3)],
    .produce 0, .answered 0 false, .produce 1, .answered 1 true]

/-- Sends that come after the producer id was received are safe. -/
theorem safe_laterSends : ∃ final,
    run step State.initial laterSends = some final ∧
      final.requests = [⟨7, [0]⟩, ⟨7, [0]⟩] ∧ final.releases.length = 2 ∧ Safe final := by
  obtain ⟨final, hrun, hfinal⟩ : ∃ final, run step State.initial laterSends = some final ∧
      (final.requests, final.releases.length) = ([⟨7, [0]⟩, ⟨7, [0]⟩], 2) :=
    Option.map_eq_some_iff.mp (by decide)
  rw [Prod.mk.injEq] at hfinal
  exact ⟨final, hrun, hfinal.1, hfinal.2, safe_of_ready (by decide) hrun⟩

/-- A send is accepted before the producer id is known: its request carries none, and at its end
the broker has no lock to release. -/
def earlySend : List (Event Nat) :=
  [.connect, .clusterConnected, .request 0 [(0, 2)], .produce 0, .producerIdAnswered 7,
    .answered 0 true]

/-- A send during `connect` goes out without a producer id, and finds no lock to release. -/
theorem unsafe_earlySend : ∃ final,
    run step State.initial earlySend = some final ∧
      final.requests = [⟨noProducerId, [0]⟩] ∧ final.releases = [⟨0, none, none, []⟩] ∧
      ¬ Safe final := by
  refine ⟨_, rfl, rfl, rfl, fun hsafe => ?_⟩
  exact hsafe.producerId _ List.mem_cons_self rfl

end KafkaJs.Producer.Connecting
