import KafkaJs.Consumer.WorkerQueue
import KafkaJs.Execution.Run

/-!
# Runs of the worker queue

Any number of fetchers push batches, handlers return or throw, and the callbacks that clear the
stored promises of the workers run, in any order. A push that comes when every worker has left its
loop and none of these callbacks has run yet starts no worker, and its batches stay in the queue.

`wakesUp_of_heard` says that in every run without such a push a batch waits only while some worker
is in its loop, so that every batch is given to one worker and its promise settles as the handler
ends; `sleeps_unheardPush` is a run with such a push.
-/

namespace KafkaJs.Consumer

open Execution

/-- How the promise is settled when the handler returns or throws an error. -/
def Outcome.ofHandler : Option KafkaError → Outcome
  | none => .fulfilled
  | some error => .rejected error

/-- Whether a worker hears of a push: it is in its loop or free to begin. -/
def Worker.hears {β : Type} : Worker β → Bool
  | .exited => false
  | .idle | .handling _ => true

namespace WorkerQueue

variable {β : Type}

/-! ## The calls of the handler -/

/-- The call of the handler that `takeNext` makes, with its worker. -/
def takeNextCalls (worker : Nat) (workerQueue : WorkerQueue β) : List (Nat × Item β) :=
  match workerQueue.queue with
  | [] => []
  | item :: _ => [(worker, item)]

/-- The call of the handler that `run` makes. -/
def runCalls (workerQueue : WorkerQueue β) (worker : Nat) : List (Nat × Item β) :=
  match workerQueue.workers[worker]? with
  | some .idle => workerQueue.takeNextCalls worker
  | _ => []

/-- The calls of the handler that `run` makes on one worker after the other. -/
def forEachCalls : List Nat → WorkerQueue β → List (Nat × Item β)
  | [], _ => []
  | worker :: workers, workerQueue =>
      workerQueue.runCalls worker ++ forEachCalls workers (workerQueue.run worker)

/-- `push` before it runs the workers. -/
def enqueue (batches : List β) (workerQueue : WorkerQueue β) : WorkerQueue β :=
  { workerQueue with
    queue := workerQueue.queue ++ itemsOf batches workerQueue.pushes.length
    pushes := workerQueue.pushes ++ [batches.map fun _ => .pending] }

/-- The calls of the handler that `push` makes. -/
def pushCalls (batches : List β) (workerQueue : WorkerQueue β) : List (Nat × Item β) :=
  forEachCalls (List.range workerQueue.workers.length) (workerQueue.enqueue batches)

/-- The promise of an item. -/
def promise (workerQueue : WorkerQueue β) (item : Item β) : Option Outcome :=
  workerQueue.pushes[item.push]? >>= fun outcomes => outcomes[item.index]?

/-- The queue with what has happened so far: the items that were pushed, the calls of the handler
with their workers, and how they ended. -/
structure Loops (β : Type) where
  workerQueue : WorkerQueue β
  pushed : List (Item β)
  calls : List (Nat × Item β)
  ends : List (Item β × Outcome)

/-- What may happen next: a fetcher pushes, a handler ends, a stored promise is cleared. -/
inductive Event (β : Type) where
  | push (batches : List β)
  | settle (worker : Nat) (error : Option KafkaError)
  | clear (worker : Nat)

/-- A new queue. -/
def Loops.create (concurrency : Nat) : Loops β :=
  { workerQueue := WorkerQueue.create concurrency, pushed := [], calls := [], ends := [] }

/-- One event. -/
def step (loops : Loops β) : Event β → Option (Loops β)
  | .push batches =>
      some { loops with
        workerQueue := loops.workerQueue.push batches
        pushed := loops.pushed ++ itemsOf batches loops.workerQueue.pushes.length
        calls := loops.calls ++ loops.workerQueue.pushCalls batches }
  | .settle worker error =>
      match loops.workerQueue.workers[worker]? with
      | some (.handling item) =>
          (loops.workerQueue.settle worker (Outcome.ofHandler error)).map fun next =>
            { loops with
              workerQueue := next
              calls := loops.calls ++ loops.workerQueue.takeNextCalls worker
              ends := loops.ends ++ [(item, Outcome.ofHandler error)] }
      | _ => none
  | .clear worker =>
      (loops.workerQueue.clear worker).map fun next => { loops with workerQueue := next }

/-- No worker is in its loop, and no callback that clears a promise is to come. -/
def AllIdle (workerQueue : WorkerQueue β) : Prop :=
  ∀ worker ∈ workerQueue.workers, worker = .idle

/-- No batch is lost: when no worker is in its loop or about to clear its promise the queue is
empty, every item that is not in the queue has been given to one worker once, its promise settles as
the handler ends, and when nothing goes on every item has been handled and every `push` has its
result. -/
structure WakesUp (loops : Loops β) : Prop where
  drained : AllIdle loops.workerQueue → loops.workerQueue.queue = []
  givenOnce : (loops.calls.map Prod.snd ++ loops.workerQueue.queue).Perm loops.pushed ∧
    (loops.pushed.map fun item => (item.push, item.index)).Nodup
  settles : ∀ item outcome, (item, outcome) ∈ loops.ends →
    outcome ≠ .pending ∧ loops.workerQueue.promise item = some outcome
  handled : AllIdle loops.workerQueue → ∀ item ∈ loops.pushed,
    (∃ worker, (worker, item) ∈ loops.calls) ∧ ∃ outcome, (item, outcome) ∈ loops.ends
  returns : AllIdle loops.workerQueue → ∀ push outcomes,
    loops.workerQueue.pushes[push]? = some outcomes →
      loops.workerQueue.result push = some (outcomes.findSome? Outcome.error)


/-- A push of batches is heard. -/
def heard (loops : Loops β) : Event β → Bool
  | .push batches => batches.isEmpty || loops.workerQueue.workers.any Worker.hears
  | .settle _ _ | .clear _ => true

/-! ## Items and calls -/

variable {workerQueue next : WorkerQueue β} {worker : Nat}

/-- What a worker takes and what is left make up the queue. -/
theorem takeNextCalls_queue (worker : Nat) (workerQueue : WorkerQueue β) :
    (workerQueue.takeNextCalls worker).map Prod.snd ++ (workerQueue.takeNext worker).queue =
      workerQueue.queue := by
  unfold takeNextCalls takeNext
  cases workerQueue.queue with
  | nil => rfl
  | cons item rest => rfl

/-- What a running worker takes and what is left make up the queue. -/
theorem runCalls_queue (workerQueue : WorkerQueue β) (worker : Nat) :
    (workerQueue.runCalls worker).map Prod.snd ++ (workerQueue.run worker).queue =
      workerQueue.queue := by
  unfold runCalls run
  cases workerQueue.workers[worker]? with
  | none => rfl
  | some state =>
      cases state with
      | idle => exact takeNextCalls_queue worker workerQueue
      | handling item => rfl
      | exited => rfl

/-- What all workers take and what is left make up the queue. -/
theorem forEachCalls_queue (workers : List Nat) (workerQueue : WorkerQueue β) :
    (forEachCalls workers workerQueue).map Prod.snd ++ (workers.foldl run workerQueue).queue =
      workerQueue.queue := by
  induction workers generalizing workerQueue with
  | nil => rfl
  | cons worker workers ih =>
      rw [forEachCalls, List.foldl_cons, List.map_append, List.append_assoc, ih]
      exact runCalls_queue workerQueue worker

/-- The batches that `push` does not leave in the queue are given to workers. -/
theorem pushCalls_queue (batches : List β) (workerQueue : WorkerQueue β) :
    (workerQueue.pushCalls batches).map Prod.snd ++ (workerQueue.push batches).queue =
      workerQueue.queue ++ itemsOf batches workerQueue.pushes.length :=
  forEachCalls_queue _ _

/-- The promise of an item is settled. -/
def settlePromise (item : Item β) (outcome : Outcome) (workerQueue : WorkerQueue β) :
    WorkerQueue β :=
  { workerQueue with
    pushes := workerQueue.pushes.modify item.push fun outcomes => outcomes.set item.index outcome }

/-- A handler ends: the promise of its item is settled, and the worker takes the next item. -/
theorem settle_handling {item : Item β} (outcome : Outcome)
    (hhandling : workerQueue.workers[worker]? = some (.handling item)) :
    workerQueue.settle worker outcome =
      some ((workerQueue.settlePromise item outcome).takeNext worker) := by
  rw [settle, hhandling]
  rfl

/-! ## Workers that take the next batch -/

/-- A batch waits only while some worker is in its loop. -/
def Awake (workerQueue : WorkerQueue β) : Prop :=
  workerQueue.queue = [] ∨ ∃ item, .handling item ∈ workerQueue.workers

/-- A worker that takes the next item is in its loop, unless there is none. -/
theorem takeNext_awake (hworker : worker < workerQueue.workers.length) :
    Awake (workerQueue.takeNext worker) := by
  unfold takeNext
  split
  · next hqueue => exact Or.inl hqueue
  · next item rest hqueue => exact Or.inr ⟨item, List.mem_set hworker _⟩

/-- Running a worker leaves the others alone. -/
theorem run_workers_of_ne {other : Nat} (hne : worker ≠ other) :
    (workerQueue.run worker).workers[other]? = workerQueue.workers[other]? := by
  unfold run takeNext
  split
  · split
    · exact List.getElem?_set_ne hne
    · exact List.getElem?_set_ne hne
  · rfl

/-- Running an idle worker leaves no batch that waits in vain. -/
theorem run_awake (hawake : Awake workerQueue ∨ workerQueue.workers[worker]? = some .idle) :
    Awake (workerQueue.run worker) := by
  unfold run
  split
  · next hidle => exact takeNext_awake (List.getElem?_eq_some_iff.mp hidle).1
  · next hnot =>
      rcases hawake with hawake | hidle
      · exact hawake
      · exact absurd hidle hnot

/-- Once an idle worker has been run, no batch waits for nothing. -/
theorem foldl_run_awake (workers : List Nat) (workerQueue : WorkerQueue β)
    (hawake : Awake workerQueue ∨ ∃ worker ∈ workers, workerQueue.workers[worker]? = some .idle) :
    Awake (workers.foldl run workerQueue) := by
  induction workers generalizing workerQueue with
  | nil =>
      rcases hawake with hawake | ⟨worker, hmem, -⟩
      · exact hawake
      · cases hmem
  | cons worker workers ih =>
      refine ih _ ?_
      rcases hawake with hawake | ⟨idle, hmem, hidle⟩
      · exact Or.inl (run_awake (Or.inl hawake))
      · by_cases heq : worker = idle
        · exact Or.inl (run_awake (Or.inr (heq ▸ hidle)))
        · refine Or.inr ⟨idle, (List.mem_cons.mp hmem).resolve_left (Ne.symm heq), ?_⟩
          rw [run_workers_of_ne heq]
          exact hidle

/-- A push that some worker hears. -/
theorem push_awake (batches : List β)
    (hheard : workerQueue.queue = [] ∧ batches = [] ∨
      ∃ worker ∈ workerQueue.workers, worker.hears = true) :
    Awake (workerQueue.push batches) := by
  refine foldl_run_awake _ (workerQueue.enqueue batches) ?_
  rcases hheard with ⟨hqueue, rfl⟩ | ⟨worker, hmem, hhears⟩
  · refine Or.inl (Or.inl ?_)
    show workerQueue.queue ++ [] = []
    rw [hqueue, List.append_nil]
  · cases worker with
    | idle =>
        obtain ⟨index, hidle⟩ := List.mem_iff_getElem?.mp hmem
        exact Or.inr ⟨index, List.mem_range.mpr (List.getElem?_eq_some_iff.mp hidle).1, hidle⟩
    | handling item => exact Or.inl (Or.inr ⟨item, hmem⟩)
    | exited => cases hhears

/-- A worker that clears its promise leaves the queue awake. -/
theorem clear_awake (hawake : Awake workerQueue) (hclear : workerQueue.clear worker = some next) :
    Awake next := by
  unfold clear at hclear
  split at hclear
  · next hexited =>
      cases hclear
      refine hawake.imp_right ?_
      rintro ⟨item, hmem⟩
      obtain ⟨index, hhandling⟩ := List.mem_iff_getElem?.mp hmem
      have hne : worker ≠ index := by
        rintro rfl
        rw [hexited] at hhandling
        cases hhandling
      refine ⟨item, List.mem_of_getElem? (i := index) ?_⟩
      show (workerQueue.workers.set worker .idle)[index]? = _
      rw [List.getElem?_set_ne hne]
      exact hhandling
  · cases hclear

/-! ## Promises -/

/-- The promise of an item that was pushed before. -/
theorem push_promise (batches : List β) {item : Item β} {outcome : Outcome}
    (hpromise : workerQueue.promise item = some outcome) :
    (workerQueue.push batches).promise item = some outcome := by
  obtain ⟨outcomes, houtcomes, hindex⟩ := Option.bind_eq_some_iff.mp hpromise
  rw [promise, push_pushes,
    List.getElem?_append_left (List.getElem?_eq_some_iff.mp houtcomes).1, houtcomes]
  exact hindex

/-- The settled promise itself. -/
theorem promise_settlePromise_self {item : Item β} {old : Outcome} (outcome : Outcome)
    (hpromise : workerQueue.promise item = some old) :
    (workerQueue.settlePromise item outcome).promise item = some outcome := by
  obtain ⟨outcomes, houtcomes, hindex⟩ := Option.bind_eq_some_iff.mp hpromise
  have hlt := (List.getElem?_eq_some_iff.mp hindex).1
  rw [promise, settlePromise, List.getElem?_modify_eq, houtcomes]
  show (outcomes.set item.index outcome)[item.index]? = some outcome
  rw [List.getElem?_set_self hlt]

/-- Every other promise is as it was. -/
theorem promise_settlePromise_of_ne {item other : Item β} (outcome : Outcome)
    (hne : (item.push, item.index) ≠ (other.push, other.index)) :
    (workerQueue.settlePromise item outcome).promise other = workerQueue.promise other := by
  rw [promise, promise, settlePromise]
  by_cases hpush : item.push = other.push
  · have hindex : item.index ≠ other.index := fun heq => hne (by rw [hpush, heq])
    rw [hpush, List.getElem?_modify_eq]
    cases workerQueue.pushes[other.push]? with
    | none => rfl
    | some outcomes => exact List.getElem?_set_ne hindex
  · show ((workerQueue.pushes.modify item.push _)[other.push]? >>= _) = _
    rw [List.getElem?_modify_ne _ _ hpush]

/-- What the invariant says of runs so far: the accounts of items, calls and ends agree, promises
are settled as the handlers ended, and a batch waits only while some worker is in its loop. -/
structure Sound (loops : Loops β) : Prop where
  tracked : Tracked loops.workerQueue
  awake : Awake loops.workerQueue
  calls : (loops.calls.map Prod.snd ++ loops.workerQueue.queue).Perm loops.pushed
  ends : (loops.ends.map Prod.fst ++ loops.workerQueue.inFlight).Perm loops.pushed
  nodup : (loops.pushed.map fun item => (item.push, item.index)).Nodup
  settled : ∀ item outcome, (item, outcome) ∈ loops.ends →
    outcome ≠ .pending ∧ loops.workerQueue.promise item = some outcome
  covered : ∀ push outcomes index, loops.workerQueue.pushes[push]? = some outcomes →
    index < outcomes.length → ∃ item ∈ loops.pushed, item.push = push ∧ item.index = index

variable {loops after : Loops β}

/-- A new queue with its workers is sound. -/
theorem sound_create (concurrency : Nat) : Sound (Loops.create concurrency : Loops β) := by
  have htracked : Tracked (create concurrency : WorkerQueue β) := tracked_create concurrency
  have hnone : (create concurrency : WorkerQueue β).inFlight = [] := by
    rw [List.eq_nil_iff_forall_not_mem]
    intro item hmem
    obtain ⟨outcomes, houtcomes, -⟩ := htracked.pending item hmem
    cases houtcomes
  refine ⟨htracked, Or.inl rfl, List.Perm.refl _, ?_, List.nodup_nil, nofun, nofun⟩
  show ([] ++ (create concurrency : WorkerQueue β).inFlight).Perm []
  rw [hnone]
  exact List.Perm.refl _

/-- The call to which an item belongs has been made. -/
theorem Sound.lt (h : Sound loops) {item : Item β} (hmem : item ∈ loops.pushed) :
    item.push < loops.workerQueue.pushes.length := by
  rcases List.mem_append.mp (h.ends.mem_iff.mpr hmem) with hended | hinFlight
  · obtain ⟨⟨ended, outcome⟩, hend, rfl⟩ := List.mem_map.mp hended
    obtain ⟨outcomes, houtcomes, -⟩ := Option.bind_eq_some_iff.mp (h.settled ended outcome hend).2
    exact (List.getElem?_eq_some_iff.mp houtcomes).1
  · exact h.tracked.lt hinFlight

/-- A push that is heard keeps the loops sound. -/
theorem Sound.push (h : Sound loops) {batches : List β}
    (hheard : heard loops (.push batches) = true)
    (hstep : step loops (.push batches) = some after) : Sound after := by
  cases hstep
  refine ⟨h.tracked.push batches, ?_, ?_, ?_, ?_, ?_, ?_⟩
  · refine push_awake batches ?_
    rcases (Bool.or_eq_true _ _).mp hheard with hempty | hhears
    · rcases h.awake with hqueue | ⟨item, hmem⟩
      · exact Or.inl ⟨hqueue, List.isEmpty_iff.mp hempty⟩
      · exact Or.inr ⟨_, hmem, rfl⟩
    · exact Or.inr (List.any_eq_true.mp hhears)
  · show (((loops.calls ++ loops.workerQueue.pushCalls batches).map Prod.snd) ++
      (loops.workerQueue.push batches).queue).Perm _
    rw [List.map_append, List.append_assoc, pushCalls_queue, ← List.append_assoc]
    exact h.calls.append_right _
  · refine ((push_inFlight batches loops.workerQueue).append_left _).trans ?_
    refine (List.perm_append_comm_assoc _ _ _).trans ?_
    exact (h.ends.append_left _).trans List.perm_append_comm
  · show ((loops.pushed ++ _).map _).Nodup
    rw [List.map_append]
    refine h.nodup.append (itemsOf_nodup batches _) ?_
    intro place hold hnew
    obtain ⟨old, hmemold, rfl⟩ := List.mem_map.mp hold
    obtain ⟨new, hmemnew, heq⟩ := List.mem_map.mp hnew
    have hlt := h.lt hmemold
    rw [← ((Prod.mk.injEq ..).mp heq).1, (mem_itemsOf.mp hmemnew).1] at hlt
    exact Nat.lt_irrefl _ hlt
  · intro item outcome hmem
    obtain ⟨hsettled, hpromise⟩ := h.settled item outcome hmem
    exact ⟨hsettled, push_promise batches hpromise⟩
  · intro push outcomes index houtcomes hindex
    rw [show (loops.workerQueue.push batches).pushes = _ from push_pushes batches _] at houtcomes
    by_cases hold : push < loops.workerQueue.pushes.length
    · rw [List.getElem?_append_left hold] at houtcomes
      obtain ⟨item, hmem, hplace⟩ := h.covered push outcomes index houtcomes hindex
      exact ⟨item, List.mem_append_left _ hmem, hplace⟩
    · -- one of the promises of this call
      obtain rfl : push = loops.workerQueue.pushes.length := by
        have hlt := (List.getElem?_eq_some_iff.mp houtcomes).1
        simp only [List.length_append, List.length_singleton] at hlt
        omega
      rw [List.getElem?_concat_length] at houtcomes
      cases houtcomes
      rw [List.length_map] at hindex
      refine ⟨⟨batches[index], _, index⟩, List.mem_append_right _ ?_, rfl, rfl⟩
      exact mem_itemsOf.mpr ⟨rfl, List.getElem?_eq_getElem hindex⟩

/-- A handler that settles keeps the loops sound. -/
theorem Sound.settle (h : Sound loops) {worker : Nat} {error : Option KafkaError}
    (hstep : step loops (.settle worker error) = some after) : Sound after := by
  rw [step] at hstep
  split at hstep
  · next item hhandling =>
      obtain ⟨next, hsettle, rfl⟩ := Option.map_eq_some_iff.mp hstep
      have htracked := h.tracked.settle hsettle
      rw [settle_handling _ hhandling, Option.some.injEq] at hsettle
      subst hsettle
      let done := loops.workerQueue.settlePromise item (Outcome.ofHandler error)
      have hitems : (item :: (done.takeNext worker).inFlight).Perm loops.workerQueue.inFlight :=
        @takeNext_inFlight _ done _ _ hhandling
      have hends : ((loops.ends.map Prod.fst ++ [item]) ++ (done.takeNext worker).inFlight).Perm
          loops.pushed := by
        rw [List.append_assoc]
        exact (hitems.append_left _).trans h.ends
      have hpromise : ∀ other, (done.takeNext worker).promise other = done.promise other := by
        intro other
        rw [promise, takeNext_pushes]
        rfl
      refine ⟨htracked, takeNext_awake (List.getElem?_eq_some_iff.mp hhandling).1, ?_, ?_, h.nodup,
        ?_, ?_⟩
      · show ((loops.calls ++ done.takeNextCalls worker).map Prod.snd ++ _).Perm _
        rw [List.map_append, List.append_assoc, takeNextCalls_queue]
        exact h.calls
      · rw [List.map_append]
        exact hends
      · intro other outcome hmem
        show _ ∧ (done.takeNext worker).promise other = _
        rw [hpromise]
        rcases List.mem_append.mp hmem with hold | hnew
        · obtain ⟨hsettled, hother⟩ := h.settled other outcome hold
          refine ⟨hsettled, ?_⟩
          rw [promise_settlePromise_of_ne _ ?_]
          · exact hother
          · -- the item was in flight, so it had not ended before
            have hnodup := (hends.map fun item => (item.push, item.index)).nodup_iff.mpr h.nodup
            simp only [List.map_append, List.map_cons, List.append_assoc] at hnodup
            have hdisjoint := (List.nodup_append.mp hnodup).2.2
            exact (hdisjoint _ (List.mem_map_of_mem (List.mem_map_of_mem hold)) _
              List.mem_cons_self).symm
        · cases List.mem_singleton.mp hnew
          obtain ⟨outcomes, houtcomes, hpending⟩ :=
            h.tracked.pending item (hitems.mem_iff.mp List.mem_cons_self)
          refine ⟨?_, @promise_settlePromise_self _ _ item .pending _ ?_⟩
          · cases error <;> exact nofun
          · rw [promise, houtcomes]
            exact hpending
      · intro push outcomes index houtcomes hindex
        have hpushes : (done.takeNext worker).pushes =
            loops.workerQueue.pushes.modify item.push fun outcomes =>
              outcomes.set item.index (Outcome.ofHandler error) := takeNext_pushes
        rw [show (done.takeNext worker).pushes = _ from hpushes, List.getElem?_modify] at houtcomes
        obtain ⟨old, hold, rfl⟩ := Option.map_eq_some_iff.mp houtcomes
        refine h.covered push old index hold (lt_of_lt_of_eq hindex ?_)
        split
        · exact List.length_set
        · rfl
  · cases hstep

/-- A worker that clears its promise keeps the loops sound. -/
theorem Sound.clear (h : Sound loops) {worker : Nat}
    (hstep : step loops (.clear worker) = some after) : Sound after := by
  obtain ⟨next, hclear, rfl⟩ := Option.map_eq_some_iff.mp hstep
  obtain ⟨hperm, hpushes⟩ := clear_inFlight hclear
  have hqueue : next.queue = loops.workerQueue.queue := by
    unfold WorkerQueue.clear at hclear
    split at hclear <;> cases hclear
    rfl
  refine ⟨h.tracked.clear hclear, clear_awake h.awake hclear, ?_, ?_, h.nodup, ?_, ?_⟩
  · show (_ ++ next.queue).Perm _
    rw [hqueue]
    exact h.calls
  · exact (hperm.append_left _).trans h.ends
  · intro item outcome hmem
    show _ ∧ (next.pushes[item.push]? >>= _) = _
    rw [hpushes]
    exact h.settled item outcome hmem
  · intro push outcomes index houtcomes hindex
    rw [show next.pushes = _ from hpushes] at houtcomes
    exact h.covered push outcomes index houtcomes hindex

/-- Every event that is heard keeps the loops sound. -/
theorem Sound.step {event : Event β} (h : Sound loops) (hheard : heard loops event = true)
    (hstep : step loops event = some after) : Sound after := by
  cases event with
  | push batches => exact h.push hheard hstep
  | settle worker error => exact h.settle hstep
  | clear worker => exact h.clear hstep

/-! ## Every batch is handled -/

/-- With every worker idle nothing is in flight. -/
theorem Sound.inFlight_of_idle (h : Sound loops) (hidle : AllIdle loops.workerQueue) :
    loops.workerQueue.queue = [] ∧ loops.workerQueue.inFlight = [] := by
  have hqueue : loops.workerQueue.queue = [] := by
    refine h.awake.resolve_right ?_
    rintro ⟨item, hmem⟩
    cases hidle _ hmem
  refine ⟨hqueue, ?_⟩
  rw [inFlight, hqueue, List.nil_append, List.flatMap_eq_nil_iff]
  intro worker hmem
  rw [hidle worker hmem]
  rfl

/-- With every worker idle the handler has ended for every item that was pushed. -/
theorem Sound.exists_end (h : Sound loops) (hidle : AllIdle loops.workerQueue) {item : Item β}
    (hmem : item ∈ loops.pushed) : ∃ outcome, (item, outcome) ∈ loops.ends := by
  have hends := h.ends
  rw [(h.inFlight_of_idle hidle).2, List.append_nil] at hends
  obtain ⟨⟨ended, outcome⟩, hend, rfl⟩ := List.mem_map.mp (hends.mem_iff.mpr hmem)
  exact ⟨outcome, hend⟩

/-- Sound loops wake up for every batch. -/
theorem Sound.wakesUp (h : Sound loops) : WakesUp loops := by
  refine ⟨fun hidle => (h.inFlight_of_idle hidle).1, ⟨h.calls, h.nodup⟩, h.settled, ?_, ?_⟩
  · intro hidle item hmem
    refine ⟨?_, h.exists_end hidle hmem⟩
    have hcalls := h.calls
    rw [(h.inFlight_of_idle hidle).1, List.append_nil] at hcalls
    obtain ⟨⟨worker, called⟩, hcall, rfl⟩ := List.mem_map.mp (hcalls.mem_iff.mpr hmem)
    exact ⟨worker, hcall⟩
  · intro hidle push outcomes houtcomes
    have hnone : .pending ∉ outcomes := by
      intro hpending
      obtain ⟨index, hindex⟩ := List.mem_iff_getElem?.mp hpending
      obtain ⟨item, hmem, rfl, rfl⟩ := h.covered push outcomes index houtcomes
        (List.getElem?_eq_some_iff.mp hindex).1
      obtain ⟨outcome, hend⟩ := h.exists_end hidle hmem
      obtain ⟨hsettled, hpromise⟩ := h.settled item outcome hend
      rw [promise, houtcomes] at hpromise
      exact hsettled (Option.some.inj (hpromise.symm.trans hindex))
    rw [result, houtcomes]
    exact if_neg hnone

/-- In every run whose pushes are all heard no batch is lost. -/
theorem wakesUp_of_heard {concurrency : Nat} {events : List (Event β)}
    (hheard : Meets step (fun loops event => heard loops event = true) (Loops.create concurrency)
      events)
    (hrun : Execution.run step (Loops.create concurrency) events = some loops) : WakesUp loops :=
  (invariant_of_meets (fun _ _ _ h hok hstep => h.step hok hstep) (sound_create concurrency) hheard
    hrun).wakesUp

/-- What a handler throws. -/
def handlerError : KafkaError := { name := .error, message := "handler", retriable := none }

/-- Two workers; a batch is pushed while one of them is about to clear its promise and the other is
in its loop, which takes that batch next. -/
def heardPush : List (Event Nat) :=
  [.push [0, 1], .settle 0 none, .push [2], .settle 1 (some handlerError), .settle 1 none,
    .clear 0, .clear 1]

/-- A push that is heard wakes up the workers. -/
theorem wakesUp_heardPush : ∃ loops, Execution.run step (Loops.create 2) heardPush = some loops ∧
    loops.calls = [(0, ⟨0, 0, 0⟩), (1, ⟨1, 0, 1⟩), (1, ⟨2, 1, 0⟩)] ∧
    loops.workerQueue.result 0 = some (some handlerError) ∧ WakesUp loops := by
  have hfinal : (Execution.run step (Loops.create 2) heardPush).map (fun loops =>
      (loops.calls, loops.workerQueue.result 0)) =
      some ([(0, ⟨0, 0, 0⟩), (1, ⟨1, 0, 1⟩), (1, ⟨2, 1, 0⟩)], some (some handlerError)) := by decide
  obtain ⟨loops, hrun, heq⟩ := Option.map_eq_some_iff.mp hfinal
  obtain ⟨hcalls, hresult⟩ := (Prod.mk.injEq ..).mp heq
  exact ⟨loops, hrun, hcalls, hresult, wakesUp_of_heard (by decide) hrun⟩

/-- The handler returns for the first batch, and the only worker leaves its loop. Another fetcher
pushes before the promise of the worker is cleared, and when it is, the batch is still in the queue.
-/
theorem sleeps_unheardPush : ∃ loops : Loops Nat,
    Execution.run step (Loops.create 1) [.push [0], .settle 0 none, .push [1], .clear 0] =
      some loops ∧
    AllIdle loops.workerQueue ∧ loops.workerQueue.queue = [⟨1, 1, 0⟩] ∧ ¬ WakesUp loops := by
  refine ⟨_, rfl, ?_, rfl, ?_⟩
  · exact fun worker hmem => List.mem_singleton.mp hmem
  · intro h
    cases h.drained fun worker hmem => List.mem_singleton.mp hmem

end WorkerQueue

end KafkaJs.Consumer
