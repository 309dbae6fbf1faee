import KafkaJs.Errors
import Mathlib.Data.List.Nodup
import Mathlib.Data.List.Perm.Basic

/-!
# The worker queue

`consumer/workerQueue.js` and `consumer/worker.js`: `push` appends batches to a queue, from which a
fixed number of workers take them one after the other, and waits until all of its batches have been
handled. `run` of a worker shares the promise of a loop that has not been cleared yet, also for the
moment after the loop has found the queue empty.

A batch is in flight while it is in the queue or with a worker. `push_inFlight`, `settle_inFlight`
and `clear_inFlight` say what the operations do to the batches in flight, and `Tracked` that each of
them has an open promise of its own.
-/

namespace KafkaJs.Consumer

/-- An entry of the queue: a batch with its promise, the one with this index among those of a call
of `push`. -/
structure Item (β : Type) where
  batch : β
  push : Nat
  index : Nat
  deriving DecidableEq, Repr

/-- A worker without a stored promise, in its loop with an item, or after its loop with the promise
still stored. -/
inductive Worker (β : Type) where
  | idle
  | handling (item : Item β)
  | exited
  deriving DecidableEq, Repr

/-- The promise of an item. -/
inductive Outcome where
  | pending
  | fulfilled
  | rejected (error : KafkaError)
  deriving DecidableEq, Repr

/-- The queue and its workers, with the promises of every call of `push` so far. -/
structure WorkerQueue (β : Type) where
  queue : List (Item β)
  workers : List (Worker β)
  pushes : List (List Outcome)
  deriving DecidableEq

/-- The item that a worker handles. -/
def Worker.items {β : Type} : Worker β → List (Item β)
  | .handling item => [item]
  | _ => []

/-- The error of a rejected promise. -/
def Outcome.error : Outcome → Option KafkaError
  | .rejected error => some error
  | _ => none

namespace WorkerQueue

variable {β : Type}

/-- `createWorkerQueue` with new workers. -/
def create (concurrency : Nat) : WorkerQueue β :=
  { queue := [], workers := List.replicate concurrency .idle, pushes := [] }

/-- The loop of a worker calls `next`: it takes the first item or ends. -/
def takeNext (worker : Nat) (workerQueue : WorkerQueue β) : WorkerQueue β :=
  match workerQueue.queue with
  | [] => { workerQueue with workers := workerQueue.workers.set worker .exited }
  | item :: rest =>
      { workerQueue with
        queue := rest
        workers := workerQueue.workers.set worker (.handling item) }

/-- `run` of a worker. -/
def run (workerQueue : WorkerQueue β) (worker : Nat) : WorkerQueue β :=
  match workerQueue.workers[worker]? with
  | some .idle => workerQueue.takeNext worker
  | _ => workerQueue

/-- The items of a call of `push`. -/
def itemsOf (batches : List β) (push : Nat) : List (Item β) :=
  batches.zipIdx.map fun entry => ⟨entry.1, push, entry.2⟩

/-- `push` until it waits for its promises. -/
def push (batches : List β) (workerQueue : WorkerQueue β) : WorkerQueue β :=
  (List.range workerQueue.workers.length).foldl run
    { workerQueue with
      queue := workerQueue.queue ++ itemsOf batches workerQueue.pushes.length
      pushes := workerQueue.pushes ++ [batches.map fun _ => .pending] }

/-- The handler of a worker returns or throws: the promise of its item is settled, and the loop goes
on. -/
def settle (worker : Nat) (outcome : Outcome) (workerQueue : WorkerQueue β) :
    Option (WorkerQueue β) :=
  match workerQueue.workers[worker]? with
  | some (.handling item) =>
      some ({ workerQueue with
        pushes := workerQueue.pushes.modify item.push fun outcomes =>
          outcomes.set item.index outcome }.takeNext worker)
  | _ => none

/-- The callback that clears the stored promise of a worker whose loop has ended. -/
def clear (worker : Nat) (workerQueue : WorkerQueue β) : Option (WorkerQueue β) :=
  match workerQueue.workers[worker]? with
  | some .exited => some { workerQueue with workers := workerQueue.workers.set worker .idle }
  | _ => none

/-- What a call of `push` returns when all its promises are settled: the error of the first one that
is rejected, if there is one. -/
def result (push : Nat) (workerQueue : WorkerQueue β) : Option (Option KafkaError) :=
  match workerQueue.pushes[push]? with
  | some outcomes =>
      if .pending ∈ outcomes then none else some (outcomes.findSome? Outcome.error)
  | none => none

/-- The items in the queue and with the workers. -/
def inFlight (workerQueue : WorkerQueue β) : List (Item β) :=
  workerQueue.queue ++ workerQueue.workers.flatMap Worker.items

/-! ## Items in flight -/

variable {workerQueue next : WorkerQueue β} {worker : Nat}

/-- Another worker at one place: its items for those of the one before. -/
theorem flatMap_items_set {workers : List (Worker β)} {old : Worker β}
    (hold : workers[worker]? = some old) (new : Worker β) :
    (old.items ++ (workers.set worker new).flatMap Worker.items).Perm
      (new.items ++ workers.flatMap Worker.items) := by
  induction workers generalizing worker with
  | nil => cases hold
  | cons first workers ih =>
      cases worker with
      | zero =>
          cases hold
          rw [List.set_cons_zero, List.flatMap_cons, List.flatMap_cons, ← List.append_assoc,
            ← List.append_assoc]
          exact List.perm_append_comm.append_right _
      | succ worker =>
          rw [List.set_cons_succ, List.flatMap_cons, List.flatMap_cons]
          refine (List.perm_append_comm_assoc _ _ _).trans ?_
          refine ((ih hold).append_left _).trans ?_
          exact List.perm_append_comm_assoc _ _ _

/-- A worker that has no item takes the first one of the queue. -/
theorem takeNext_inFlight {old : Worker β} (hold : workerQueue.workers[worker]? = some old) :
    (old.items ++ (workerQueue.takeNext worker).inFlight).Perm workerQueue.inFlight := by
  unfold takeNext
  split
  · next hqueue =>
      show (old.items ++ (workerQueue.queue ++ (workerQueue.workers.set worker .exited).flatMap
        Worker.items)).Perm (workerQueue.queue ++ _)
      rw [hqueue]
      exact flatMap_items_set hold .exited
  · next item rest hqueue =>
      show (old.items ++ (rest ++ (workerQueue.workers.set worker (.handling item)).flatMap
        Worker.items)).Perm (workerQueue.queue ++ _)
      rw [hqueue]
      refine (List.perm_append_comm_assoc _ _ _).trans ?_
      refine ((flatMap_items_set hold (.handling item)).append_left rest).trans ?_
      exact List.perm_middle

/-- Running a worker keeps what is in flight. -/
theorem run_inFlight (workerQueue : WorkerQueue β) (worker : Nat) :
    (workerQueue.run worker).inFlight.Perm workerQueue.inFlight := by
  unfold run
  split
  · next hidle => exact takeNext_inFlight hidle
  · exact List.Perm.refl _

/-- Taking a batch keeps the pushes. -/
theorem takeNext_pushes : (workerQueue.takeNext worker).pushes = workerQueue.pushes := by
  unfold takeNext
  split <;> rfl

/-- Running a worker keeps the pushes. -/
theorem run_pushes : (workerQueue.run worker).pushes = workerQueue.pushes := by
  unfold run
  split
  · exact takeNext_pushes
  · rfl

/-- The workers that are started leave in flight what is in flight. -/
theorem foldl_run (workers : List Nat) (workerQueue : WorkerQueue β) :
    (workers.foldl run workerQueue).inFlight.Perm workerQueue.inFlight ∧
      (workers.foldl run workerQueue).pushes = workerQueue.pushes := by
  induction workers generalizing workerQueue with
  | nil => exact ⟨List.Perm.refl _, rfl⟩
  | cons worker workers ih =>
      obtain ⟨hperm, hpushes⟩ := ih (workerQueue.run worker)
      exact ⟨hperm.trans (run_inFlight workerQueue worker), hpushes.trans run_pushes⟩

/-- A push puts its batches in flight. -/
theorem push_inFlight (batches : List β) (workerQueue : WorkerQueue β) :
    (workerQueue.push batches).inFlight.Perm
      (itemsOf batches workerQueue.pushes.length ++ workerQueue.inFlight) := by
  refine (foldl_run _ _).1.trans ?_
  show ((workerQueue.queue ++ _) ++ _).Perm (_ ++ (workerQueue.queue ++ _))
  rw [List.append_assoc]
  exact List.perm_append_comm_assoc _ _ _

/-- A push waits for each of its batches. -/
theorem push_pushes (batches : List β) (workerQueue : WorkerQueue β) :
    (workerQueue.push batches).pushes =
      workerQueue.pushes ++ [batches.map fun _ => .pending] :=
  (foldl_run _ _).2

/-- A handler is done with its item. -/
theorem settle_inFlight {outcome : Outcome}
    (hsettle : workerQueue.settle worker outcome = some next) :
    ∃ item, (item :: next.inFlight).Perm workerQueue.inFlight ∧
      next.pushes = workerQueue.pushes.modify item.push fun outcomes =>
        outcomes.set item.index outcome := by
  unfold settle at hsettle
  split at hsettle
  · next item hhandling =>
      cases hsettle
      let settled : WorkerQueue β :=
        { workerQueue with
          pushes := workerQueue.pushes.modify item.push fun outcomes =>
            outcomes.set item.index outcome }
      have hperm := @takeNext_inFlight _ settled worker _ hhandling
      exact ⟨item, hperm, takeNext_pushes⟩
  · cases hsettle

/-- A worker that clears its promise keeps what is in flight and the pushes. -/
theorem clear_inFlight (hclear : workerQueue.clear worker = some next) :
    next.inFlight.Perm workerQueue.inFlight ∧ next.pushes = workerQueue.pushes := by
  unfold clear at hclear
  split at hclear
  · next hexited =>
      cases hclear
      exact ⟨(flatMap_items_set hexited .idle).append_left _, rfl⟩
  · cases hclear

/-! ## Promises -/

/-- Every item in flight has an open promise of its own. -/
structure Tracked (workerQueue : WorkerQueue β) : Prop where
  nodup : (workerQueue.inFlight.map fun item => (item.push, item.index)).Nodup
  pending : ∀ item ∈ workerQueue.inFlight, ∃ outcomes,
    workerQueue.pushes[item.push]? = some outcomes ∧ outcomes[item.index]? = some .pending

/-- A new queue tracks nothing. -/
theorem tracked_create (concurrency : Nat) : Tracked (create concurrency : WorkerQueue β) := by
  have hempty : (create concurrency : WorkerQueue β).inFlight = [] := by
    show (List.replicate concurrency Worker.idle).flatMap Worker.items = []
    rw [List.flatMap_eq_nil_iff]
    intro worker hmem
    rw [(List.mem_replicate.mp hmem).2]
    rfl
  refine ⟨?_, ?_⟩
  · rw [hempty]
    exact List.nodup_nil
  · rw [hempty]
    exact fun _ hmem => nomatch hmem

/-- The items of a push. -/
theorem mem_itemsOf {batches : List β} {push : Nat} {item : Item β} :
    item ∈ itemsOf batches push ↔ item.push = push ∧ batches[item.index]? = some item.batch := by
  rw [itemsOf, List.mem_map]
  constructor
  · rintro ⟨⟨batch, index⟩, hmem, rfl⟩
    exact ⟨rfl, List.mem_zipIdx_iff_getElem?.mp hmem⟩
  · rintro ⟨rfl, hbatch⟩
    exact ⟨(item.batch, item.index), List.mem_zipIdx_iff_getElem?.mpr hbatch, rfl⟩

/-- The items of a push are distinct. -/
theorem itemsOf_nodup (batches : List β) (push : Nat) :
    ((itemsOf batches push).map fun item => (item.push, item.index)).Nodup := by
  rw [itemsOf, List.map_map]
  have hindices : (batches.zipIdx.map Prod.snd).Nodup := by
    rw [List.zipIdx_map_snd]
    exact List.nodup_range'
  refine List.Nodup.of_map Prod.snd ?_
  rw [List.map_map]
  exact hindices

/-- No item of a call of `push` is in flight when it returns. -/
theorem Tracked.push_ne (h : Tracked workerQueue) {push : Nat} {error : Option KafkaError}
    (hresult : workerQueue.result push = some error) :
    ∀ item ∈ workerQueue.inFlight, item.push ≠ push := by
  rintro item hmem rfl
  obtain ⟨outcomes, houtcomes, hpending⟩ := h.pending item hmem
  rw [result, houtcomes] at hresult
  dsimp only at hresult
  rw [if_pos (List.mem_of_getElem? hpending)] at hresult
  cases hresult

/-- An item in flight is one of a push. -/
theorem Tracked.lt (h : Tracked workerQueue) {item : Item β} (hmem : item ∈ workerQueue.inFlight) :
    item.push < workerQueue.pushes.length := by
  obtain ⟨outcomes, houtcomes, -⟩ := h.pending item hmem
  exact (List.getElem?_eq_some_iff.mp houtcomes).1

/-- A push is tracked. -/
theorem Tracked.push (h : Tracked workerQueue) (batches : List β) :
    Tracked (workerQueue.push batches) := by
  have hperm := push_inFlight batches workerQueue
  refine ⟨?_, ?_⟩
  · rw [(hperm.map _).nodup_iff, List.map_append]
    refine (itemsOf_nodup batches _).append h.nodup ?_
    intro place hnew hold
    obtain ⟨new, hmemnew, rfl⟩ := List.mem_map.mp hnew
    obtain ⟨old, hmemold, heq⟩ := List.mem_map.mp hold
    have hlt := h.lt hmemold
    rw [(Prod.mk.injEq ..).mp heq |>.1, (mem_itemsOf.mp hmemnew).1] at hlt
    exact Nat.lt_irrefl _ hlt
  · intro item hmem
    rw [push_pushes]
    rcases List.mem_append.mp (hperm.mem_iff.mp hmem) with hnew | hold
    · obtain ⟨hpush, hbatch⟩ := mem_itemsOf.mp hnew
      refine ⟨batches.map fun _ => .pending, ?_, ?_⟩
      · rw [hpush, List.getElem?_concat_length]
      · rw [List.getElem?_map, hbatch]
        rfl
    · obtain ⟨outcomes, houtcomes, hpending⟩ := h.pending item hold
      exact ⟨outcomes, (List.getElem?_append_left (h.lt hold)).trans houtcomes, hpending⟩

/-- A batch that settles is tracked. -/
theorem Tracked.settle (h : Tracked workerQueue) {outcome : Outcome}
    (hsettle : workerQueue.settle worker outcome = some next) : Tracked next := by
  obtain ⟨done, hperm, hpushes⟩ := settle_inFlight hsettle
  have hnodup := h.nodup
  rw [← (hperm.map _).nodup_iff, List.map_cons, List.nodup_cons] at hnodup
  refine ⟨hnodup.2, ?_⟩
  intro item hmem
  obtain ⟨outcomes, houtcomes, hpending⟩ :=
    h.pending item (hperm.mem_iff.mp (List.mem_cons_of_mem _ hmem))
  rw [hpushes, List.getElem?_modify, houtcomes]
  by_cases hpush : done.push = item.push
  · -- another promise of the same call
    have hindex : done.index ≠ item.index := by
      intro hindex
      refine hnodup.1 (List.mem_map.mpr ⟨item, hmem, ?_⟩)
      rw [hpush, hindex]
    refine ⟨outcomes.set done.index outcome, ?_, ?_⟩
    · simp [hpush]
    · rw [List.getElem?_set_ne hindex]
      exact hpending
  · refine ⟨outcomes, ?_, hpending⟩
    simp [hpush]

/-- A worker that clears its promise keeps track. -/
theorem Tracked.clear (h : Tracked workerQueue) (hclear : workerQueue.clear worker = some next) :
    Tracked next := by
  obtain ⟨hperm, hpushes⟩ := clear_inFlight hclear
  refine ⟨(hperm.map _).nodup_iff.mpr h.nodup, ?_⟩
  intro item hmem
  rw [hpushes]
  exact h.pending item (hperm.mem_iff.mp hmem)

end WorkerQueue

end KafkaJs.Consumer
