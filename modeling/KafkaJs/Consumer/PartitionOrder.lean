import KafkaJs.Consumer.PartitionExclusion

/-!
# The order of the batches of a partition

A runner as in `Consumption`, with a record of what it has pushed to the worker queue and of what
its handlers are done with. Since no two batches of one partition are in flight at a time, the
workers cannot overtake one another within a partition: `ordered_of_run` says that the batches of
each partition are handled one at a time, once each, and in the order in which they were pushed.
-/

namespace KafkaJs.Consumer.Consumption

open Data Execution

variable {β : Type} (place : β → String × Int)

/-- A runner and its record. -/
structure Recorded (β : Type) where
  runner : Consumption β
  pushed : List (Item β)
  handled : List (Item β)

/-- The items that an event adds to the worker queue. -/
def enqueued (state : Consumption β) : ConsumptionEvent place → List (Item β)
  | .fetched fetcher result =>
      match state.loops[fetcher]?, state.manager.fetchers[fetcher]? with
      | some loop, some current =>
          if current.isRunning then
            WorkerQueue.itemsOf
              (filterUnassignedBatches place (state.assignmentsOf loop) loop.nodeId result.batches)
              state.workerQueue.pushes.length
          else []
      | _, _ => []
  | _ => []

/-- The item whose handler returns or throws. -/
def finished (state : Consumption β) : ConsumptionEvent place → List (Item β)
  | .handled worker _ => state.workerQueue.workers[worker]?.toList.flatMap Worker.items
  | _ => []

/-- One event, with the record of it. -/
def record (recorded : Recorded β) (event : ConsumptionEvent place) : Option (Recorded β) :=
  (recorded.runner.step place event).map fun runner =>
    { runner
      pushed := recorded.pushed ++ recorded.runner.enqueued place event
      handled := recorded.handled ++ recorded.runner.finished place event }

/-- A runner that has been started. -/
def Recorded.create (concurrency : Nat) (nodeIds : List Int) : Recorded β :=
  ⟨Consumption.create concurrency nodeIds, [], []⟩

/-- The items of one topic and partition. -/
def itemsAt (partition : String × Int) (items : List (Item β)) : List (Item β) :=
  items.filter fun item => place item.batch = partition

/-- Within each partition, what was pushed is what has been handled and then what is in flight,
which is one batch at most. -/
def Ordered (recorded : Recorded β) : Prop :=
  ∀ partition, itemsAt place partition recorded.pushed =
    itemsAt place partition recorded.handled ++
      itemsAt place partition recorded.runner.workerQueue.inFlight ∧
    (itemsAt place partition recorded.runner.workerQueue.inFlight).length ≤ 1

variable {place}

/-! ## One batch of a partition -/

/-- The items of a partition in two lists are those of the first, then those of the second. -/
theorem itemsAt_append (partition : String × Int) (first second : List (Item β)) :
    itemsAt place partition (first ++ second) =
      itemsAt place partition first ++ itemsAt place partition second :=
  List.filter_append ..

/-- Where no two batches in flight are of the same partition, at most one of each is. -/
theorem Exclusive.length_le {state : Consumption β} (h : state.Exclusive place)
    (partition : String × Int) :
    (itemsAt place partition state.workerQueue.inFlight).length ≤ 1 := by
  have hsublist : (itemsAt place partition state.workerQueue.inFlight).Sublist
      state.workerQueue.inFlight := List.filter_sublist
  have hsame : ∀ other ∈ (itemsAt place partition state.workerQueue.inFlight).map
      fun item => place item.batch, partition = other := by
    intro other hother
    obtain ⟨item, hitem, rfl⟩ := List.mem_map.mp hother
    exact (of_decide_eq_true (List.mem_filter.mp hitem).2).symm
  have hnodup : ((itemsAt place partition state.workerQueue.inFlight).map
    fun item => place item.batch).Nodup := List.Nodup.sublist (hsublist.map _) h
  have hle := List.nodup_iff_count_le_one.mp hnodup partition
  rwa [List.count_eq_length.mpr hsame, List.length_map] at hle

/-- A list of one element at most has no other order. -/
theorem eq_of_perm_of_length_le {α : Type} {first second : List α} (h : first.Perm second)
    (hle : first.length ≤ 1) : second = first := by
  match first, hle with
  | [], _ => exact h.nil_eq.symm
  | [item], _ => exact h.singleton_eq.symm

/-! ## One event -/

section Step

variable {state next : Consumption β} {event : ConsumptionEvent place}

/-- Adopting a manager keeps the workers' queue. -/
theorem adopt_workerQueue (state : Consumption β) (manager : FetchManager) :
    (state.adopt manager).workerQueue = state.workerQueue := by
  unfold adopt
  split <;> rfl

/-- Giving up a fetcher keeps the workers' queue. -/
theorem unassign_workerQueue (state : Consumption β) (fetcher : Nat) (loop : FetcherLoop β)
    (batches : List β) (manager : FetchManager) :
    (state.unassign place fetcher loop batches manager).workerQueue = state.workerQueue := rfl

/-- The items that a fetch pushes, or none. -/
theorem fetched_inFlight {fetcher : Nat} {result : FetchResult place}
    (hstep : state.step place (.fetched fetcher result) = some next) :
    next.workerQueue.inFlight.Perm
      (state.workerQueue.inFlight ++ state.enqueued place (.fetched fetcher result)) := by
  simp only [step] at hstep
  split at hstep
  · next loop current hloop hcurrent =>
      obtain ⟨manager, -, rfl⟩ := Option.map_eq_some_iff.mp hstep
      simp only [enqueued, hloop, hcurrent]
      split
      · next hpush =>
          rw [if_pos (Bool.and_eq_true_iff.mp hpush).1]
          exact (WorkerQueue.push_inFlight _ _).trans List.perm_append_comm
      · next hnot =>
          split
          · next hrunning =>
              -- nothing is left to push
              rw [hrunning, Bool.true_and, Bool.not_eq_true', Bool.not_eq_false,
                List.isEmpty_iff] at hnot
              rw [hnot]
              exact List.Perm.of_eq (List.append_nil _).symm
          · exact List.Perm.of_eq (List.append_nil _).symm
  · cases hstep

/-- A handler takes its item out of flight. -/
theorem handled_inFlight {worker : Nat} {error : Option KafkaError}
    (hstep : state.step place (.handled worker error) = some next) :
    (state.finished place (.handled worker error) ++ next.workerQueue.inFlight).Perm
      state.workerQueue.inFlight := by
  obtain ⟨workerQueue, hsettle, rfl⟩ := Option.map_eq_some_iff.mp hstep
  unfold WorkerQueue.settle at hsettle
  split at hsettle
  · next item hhandling =>
      cases hsettle
      rw [finished, hhandling, Option.toList_some, List.flatMap_singleton]
      exact @WorkerQueue.takeNext_inFlight _ { state.workerQueue with pushes := _ } worker _
        hhandling
  · cases hsettle

/-- What is in flight after an event, and what has been handled in it, was in flight before it or
has been pushed in it. -/
theorem inFlight_step (hstep : state.step place event = some next) :
    (state.finished place event ++ next.workerQueue.inFlight).Perm
      (state.workerQueue.inFlight ++ state.enqueued place event) := by
  have hsame : next.workerQueue.inFlight.Perm state.workerQueue.inFlight →
      ([] ++ next.workerQueue.inFlight).Perm (state.workerQueue.inFlight ++ []) := by
    rw [List.nil_append, List.append_nil]
    exact id
  cases event with
  | fetched fetcher result => exact fetched_inFlight hstep
  | handled worker error =>
      rw [enqueued, List.append_nil]
      · exact handled_inFlight hstep
      · simp
  | cleared worker =>
      obtain ⟨workerQueue, hclear, rfl⟩ := Option.map_eq_some_iff.mp hstep
      exact hsame (WorkerQueue.clear_inFlight hclear).1
  | _ =>
      refine hsame (List.Perm.of_eq (congrArg WorkerQueue.inFlight ?_))
      simp only [step] at hstep
      grind [Option.map_eq_some_iff, adopt_workerQueue, unassign_workerQueue]

/-- An event pushes to the queue, or it takes an item out of flight. -/
theorem enqueued_or_finished (state : Consumption β) (event : ConsumptionEvent place) :
    state.enqueued place event = [] ∨ state.finished place event = [] := by
  cases event with
  | fetched => exact .inr rfl
  | _ => exact .inl rfl

/-- Within a partition, an event keeps the order of what is handled and in flight. -/
theorem itemsAt_step (hstep : state.step place event = some next)
    (hbefore : state.Exclusive place) (hafter : next.Exclusive place)
    (partition : String × Int) :
    itemsAt place partition (state.workerQueue.inFlight ++ state.enqueued place event) =
      itemsAt place partition (state.finished place event ++ next.workerQueue.inFlight) := by
  have hperm := (inFlight_step hstep).filter fun item => decide (place item.batch = partition)
  rcases enqueued_or_finished state event with hnone | hnone
  · rw [hnone, List.append_nil] at hperm ⊢
    exact (eq_of_perm_of_length_le hperm.symm (hbefore.length_le partition)).symm
  · rw [hnone, List.nil_append] at hperm ⊢
    exact eq_of_perm_of_length_le hperm (hafter.length_le partition)

end Step

/-! ## Whole runs -/

variable {recorded next : Recorded β} {event : ConsumptionEvent place}

/-- One event keeps the order. -/
theorem Ordered.step (h : Ordered place recorded)
    (hrecord : record place recorded event = some next)
    (hbefore : recorded.runner.Exclusive place) (hafter : next.runner.Exclusive place) :
    Ordered place next := by
  obtain ⟨runner, hstep, rfl⟩ := Option.map_eq_some_iff.mp hrecord
  intro partition
  refine ⟨?_, hafter.length_le partition⟩
  have hsame := itemsAt_step hstep hbefore hafter partition
  rw [itemsAt_append, itemsAt_append] at hsame
  rw [itemsAt_append, (h partition).1, List.append_assoc, hsame, itemsAt_append,
    List.append_assoc]

/-- The invariant of a run. -/
def Keeps (place : β → String × Int) (recorded : Recorded β) : Prop :=
  recorded.runner.running = true → Sound place recorded.runner ∧ Ordered place recorded

/-- A new consumption keeps the order: nothing was fetched yet. -/
theorem keeps_create (concurrency : Nat) {nodeIds : List Int} (hnodup : nodeIds.Nodup) :
    Keeps place (Recorded.create concurrency nodeIds : Recorded β) := by
  intro _
  have hsound : Sound place (Recorded.create concurrency nodeIds : Recorded β).runner :=
    sound_create concurrency hnodup
  have hnone : (Recorded.create concurrency nodeIds : Recorded β).runner.workerQueue.inFlight =
      [] := List.eq_nil_iff_forall_not_mem.mpr fun item hmem => by
    obtain ⟨_, houtcomes, -⟩ := hsound.tracked.pending item hmem
    cases houtcomes
  refine ⟨hsound, fun partition => ⟨?_, hsound.exclusive.length_le partition⟩⟩
  rw [hnone]
  rfl

/-- Every recorded step keeps the order. -/
theorem Keeps.step (h : Keeps place recorded) (hrecord : record place recorded event = some next) :
    Keeps place next := by
  obtain ⟨runner, hstep, rfl⟩ := Option.map_eq_some_iff.mp hrecord
  intro hrunning
  obtain ⟨hsound, hordered⟩ := h (running_of_step hstep hrunning)
  have hafter := Sound.step (fun _ => hsound) hstep hrunning
  exact ⟨hafter, hordered.step hrecord hsound.exclusive hafter.exclusive⟩

/-- As long as the runner is running, the batches of each partition are handled one at a time, once
each, and in the order in which they were pushed to the worker queue. -/
theorem ordered_of_run {concurrency : Nat} {nodeIds : List Int} (hnodup : nodeIds.Nodup)
    {events : List (ConsumptionEvent place)}
    (hrun : run (record place) (Recorded.create concurrency nodeIds) events = some recorded)
    (hrunning : recorded.runner.running = true) : Ordered place recorded := by
  have hkeeps : Keeps place recorded :=
    invariant_of_run (fun _ _ _ h hrecord => h.step hrecord) (keeps_create concurrency hnodup) hrun
  exact (hkeeps hrunning).2

/-- A partition is fetched, handled and fetched again by the fetcher of another node. -/
theorem ordered_of_run_joiningNode : ∃ recorded : Recorded (String × Int),
    run (record id) (Recorded.create 2 [1, 2]) joiningNode = some recorded ∧
      (itemsAt id ("topic", 0) recorded.pushed).length = 2 ∧ Ordered id recorded := by
  have hpushed : (run (record id) (Recorded.create 2 [1, 2]) joiningNode).map (fun recorded =>
      (recorded.runner.running, (itemsAt id ("topic", 0) recorded.pushed).length)) =
        some (true, 2) := by decide
  obtain ⟨recorded, hrun, hrecorded⟩ := Option.map_eq_some_iff.mp hpushed
  obtain ⟨hrunning, hlength⟩ := Prod.mk.inj hrecorded
  exact ⟨recorded, hrun, hlength, ordered_of_run (by decide) hrun hrunning⟩

end KafkaJs.Consumer.Consumption
