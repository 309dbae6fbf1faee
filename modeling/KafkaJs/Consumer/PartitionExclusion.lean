import KafkaJs.Consumer.FetcherGenerations
import KafkaJs.Consumer.WakeUp
import KafkaJs.Data.InsertionMap

/-!
# One handler for each partition

The fetchers of a runner, the map in which the fetchers of one generation note who has which
partition, and the worker queue that all of them push to. A fetcher drops the batches of partitions
that another fetcher of its generation has, notes its own, and takes them off the map when its push
has returned. New fetchers share a new map.

`Sound` is the invariant: every batch in flight is of a push for which a current fetcher waits, and
its partition is noted for the node of that fetcher. `exclusive_of_run` concludes that no two
batches in flight are of the same partition while the runner is running.
-/

namespace KafkaJs.Consumer

open Data Execution

/-- `assignmentKey` of a topic and a partition. -/
def assignmentKey (place : String × Int) : String := place.1 ++ "|" ++ toString place.2

/-- What a fetch returns. The broker answers each partition of the request once, so the batches are
of different partitions; `place` is the topic and partition of a batch. -/
structure FetchResult {β : Type} (place : β → String × Int) where
  batches : List β
  distinct : (batches.map place).Nodup

/-- A fetcher beside its `isRunning`: its node, the generation whose map it shares, and while it
waits for the worker queue its call of `push` with the batches. -/
structure FetcherLoop (β : Type) where
  nodeId : Int
  generation : Nat
  pushing : Option (Nat × List β)

/-- A runner with its fetch manager and its worker queue. `loops` has an entry for each fetcher of
the manager, and `partitionAssignments` one for each generation. -/
structure Consumption (β : Type) where
  manager : FetchManager
  loops : List (FetcherLoop β)
  partitionAssignments : List (InsertionMap String Int)
  workerQueue : WorkerQueue β
  running : Bool

/-- What may happen next. The node ids are the keys of an object. -/
inductive ConsumptionEvent {β : Type} (place : β → String × Int) where
  | nodes (nodeIds : List Int) (distinct : nodeIds.Nodup)
  | start
  | fetched (fetcher : Nat) (result : FetchResult place)
  | fetchFails (fetcher : Nat) (error : KafkaError)
  | pushed (fetcher : Nat)
  | handled (worker : Nat) (error : Option KafkaError)
  | cleared (worker : Nat)
  | allEnded
  | caught
  | internalStopped
  | stop
  | stopResolved (call : Nat)

namespace Consumption

variable {β : Type} (place : β → String × Int)

/-- `filterUnassignedBatches`. -/
def filterUnassignedBatches (assignments : InsertionMap String Int) (nodeId : Int)
    (batches : List β) : List β :=
  batches.filter fun batch =>
    (assignments.get? (assignmentKey (place batch))).all fun assigned => assigned = nodeId

/-- `batches.forEach(assignTopicPartition)`. -/
def assignAll (nodeId : Int) (batches : List β) (assignments : InsertionMap String Int) :
    InsertionMap String Int :=
  batches.foldl (fun map batch => map.set (assignmentKey (place batch)) nodeId) assignments

/-- `batches.forEach(unassignTopicPartition)`. -/
def unassignAll (batches : List β) (assignments : InsertionMap String Int) :
    InsertionMap String Int :=
  batches.foldl (fun map batch => map.delete (assignmentKey (place batch))) assignments

/-- A runner that has been started, before its fetch manager is. -/
def create (concurrency : Nat) (nodeIds : List Int) : Consumption β :=
  { manager := FetchManager.create nodeIds, loops := [], partitionAssignments := [],
    workerQueue := WorkerQueue.create concurrency, running := true }

/-- The map that a fetcher shares. -/
def assignmentsOf (state : Consumption β) (loop : FetcherLoop β) : InsertionMap String Int :=
  state.partitionAssignments.getD loop.generation .empty

/-- Replace one fetcher and the map that it shares. -/
def setLoop (state : Consumption β) (fetcher : Nat) (loop : FetcherLoop β)
    (assignments : InsertionMap String Int) : Consumption β :=
  { state with
    loops := state.loops.set fetcher loop
    partitionAssignments := state.partitionAssignments.set loop.generation assignments }

/-- Where the manager has created fetchers, they share a new map. -/
def adopt (state : Consumption β) (manager : FetchManager) : Consumption β :=
  if manager.fetchers.length = state.manager.fetchers.length then { state with manager }
  else
    { state with
      manager
      loops := state.loops ++ manager.nodeIds.map fun nodeId =>
        ⟨nodeId, state.partitionAssignments.length, none⟩
      partitionAssignments := state.partitionAssignments ++ [.empty] }

/-- The batches have been handled: the fetcher takes them off the map. -/
def unassign (state : Consumption β) (fetcher : Nat) (loop : FetcherLoop β) (batches : List β)
    (manager : FetchManager) : Consumption β :=
  { state with manager }.setLoop fetcher { loop with pushing := none }
    (unassignAll place batches (state.assignmentsOf loop))

/-- One event. -/
def step (state : Consumption β) : ConsumptionEvent place → Option (Consumption β)
  | .nodes nodeIds _ =>
      (state.manager.step (.nodes nodeIds)).map fun manager => { state with manager }
  | .start => if state.running then (state.manager.step .start).map state.adopt else none
  | .fetched fetcher result =>
      match state.loops[fetcher]?, state.manager.fetchers[fetcher]? with
      | some loop, some current =>
          let assignments := state.assignmentsOf loop
          -- `filterUnassignedBatches`, and only if something is left is it pushed
          let available := filterUnassignedBatches place assignments loop.nodeId result.batches
          (state.manager.step (.fetched fetcher (!available.isEmpty))).map fun manager =>
            if current.isRunning && !available.isEmpty then
              { state with
                manager
                workerQueue := state.workerQueue.push available }.setLoop fetcher
                { loop with pushing := some (state.workerQueue.pushes.length, available) }
                (assignAll place loop.nodeId available assignments)
            else { state with manager }
      | _, _ => none
  | .fetchFails fetcher error =>
      match state.manager.fetchers[fetcher]? with
      | some current =>
          if current.phase = .pushing then none
          else
            (state.manager.step (.fails fetcher error)).map fun manager => { state with manager }
      | none => none
  | .pushed fetcher =>
      match state.loops[fetcher]? with
      | some loop =>
          match loop.pushing with
          | some (push, batches) =>
              match state.workerQueue.result push with
              | some none =>
                  (state.manager.step (.pushed fetcher)).map
                    (state.unassign place fetcher loop batches)
              -- `finally`: the batches are taken off the map also when the handlers failed
              | some (some error) =>
                  (state.manager.step (.fails fetcher error)).map
                    (state.unassign place fetcher loop batches)
              | none => none
          | none => none
      | none => none
  | .handled worker error =>
      (state.workerQueue.settle worker (Outcome.ofHandler error)).map fun workerQueue =>
        { state with workerQueue }
  | .cleared worker =>
      (state.workerQueue.clear worker).map fun workerQueue => { state with workerQueue }
  | .allEnded => (state.manager.step .allEnded).map fun manager => { state with manager }
  | .caught => (state.manager.step .caught).map fun manager => { state with manager }
  | .internalStopped => (state.manager.step .internalStopped).map state.adopt
  | .stop =>
      if state.running then
        (state.manager.step .stop).map fun manager => { state with manager, running := false }
      else none
  | .stopResolved call =>
      (state.manager.step (.stopResolved call)).map fun manager => { state with manager }

/-- No two batches in the queue or with a handler are of the same topic and partition. -/
def Exclusive (state : Consumption β) : Prop :=
  (state.workerQueue.inFlight.map fun item => place item.batch).Nodup

/-! ## The map of a generation -/

section Map

variable {place : β → String × Int} {assignments : InsertionMap String Int} {nodeId : Int}
  {batches : List β} {batch : β} {key : String}

/-- A batch that is let through belongs to nobody yet, or to this fetcher. -/
theorem mem_filterUnassignedBatches :
    batch ∈ filterUnassignedBatches place assignments nodeId batches ↔
      batch ∈ batches ∧
        ∀ assigned, assignments.get? (assignmentKey (place batch)) = some assigned →
          assigned = nodeId := by
  rw [filterUnassignedBatches, List.mem_filter]
  cases assignments.get? (assignmentKey (place batch)) <;> simp

/-- What the map says after `assignTopicPartition` of all batches. -/
theorem get?_assignAll (key : String) :
    (assignAll place nodeId batches assignments).get? key =
      if key ∈ batches.map fun batch => assignmentKey (place batch) then some nodeId
      else assignments.get? key := by
  induction batches generalizing assignments with
  | nil => rfl
  | cons first batches ih =>
      show (assignAll place nodeId batches _).get? key = _
      rw [ih, InsertionMap.get?_set]
      simp only [List.map_cons, List.mem_cons]
      split <;> split <;> simp_all

/-- What the map says after `unassignTopicPartition` of all batches. -/
theorem get?_unassignAll (key : String) :
    (unassignAll place batches assignments).get? key =
      if key ∈ batches.map fun batch => assignmentKey (place batch) then none
      else assignments.get? key := by
  induction batches generalizing assignments with
  | nil => rfl
  | cons first batches ih =>
      show (unassignAll place batches _).get? key = _
      rw [ih, InsertionMap.get?_delete]
      simp only [List.map_cons, List.mem_cons]
      split <;> split <;> simp_all

end Map

/-! ## The invariant -/

/-- The fetcher waits for a call of `push` with the batches. -/
structure Pushing (loops : List (FetcherLoop β)) (fetcher : Nat) (loop : FetcherLoop β) (push : Nat)
    (batches : List β) : Prop where
  found : loops[fetcher]? = some loop
  waits : loop.pushing = some (push, batches)

/-- The fetchers beside the manager. -/
structure Arranged (state : Consumption β) : Prop where
  waited : state.manager.Waited
  nodes : state.manager.nodeIds.Nodup
  /-- A fetcher has batches exactly as long as it waits for the worker queue. -/
  pushing : (state.loops.map fun loop => loop.pushing.isSome) = state.manager.pushing
  /-- The current fetchers share the newest map. -/
  newest : ∀ (fetcher : Nat) (loop : FetcherLoop β), state.loops[fetcher]? = some loop →
    state.manager.first ≤ fetcher → loop.generation + 1 = state.partitionAssignments.length
  /-- The current fetchers are of different nodes. -/
  apart : ∀ (first second : Nat) (firstLoop secondLoop : FetcherLoop β),
    state.loops[first]? = some firstLoop → state.loops[second]? = some secondLoop →
      state.manager.first ≤ first → state.manager.first ≤ second →
        firstLoop.nodeId = secondLoop.nodeId → first = second

/-- What keeps the batches in flight apart while the runner is running. -/
structure Sound (state : Consumption β) : Prop extends state.Arranged where
  tracked : state.workerQueue.Tracked
  distinct : ∀ (fetcher : Nat) (loop : FetcherLoop β) (push : Nat) (batches : List β),
    Pushing state.loops fetcher loop push batches → (batches.map place).Nodup
  /-- The partitions of the batches are noted for the node of the fetcher. -/
  assigned : ∀ (fetcher : Nat) (loop : FetcherLoop β) (push : Nat) (batches : List β),
    Pushing state.loops fetcher loop push batches → ∀ batch ∈ batches,
      (state.assignmentsOf loop).get? (assignmentKey (place batch)) = some loop.nodeId
  /-- Every batch in flight is one of those that a fetcher waits for. -/
  owned : ∀ item ∈ state.workerQueue.inFlight,
    ∃ (fetcher : Nat) (loop : FetcherLoop β) (batches : List β),
      Pushing state.loops fetcher loop item.push batches ∧
        batches[item.index]? = some item.batch

variable {place} {state next : Consumption β}

/-- New fetchers and workers exclude each other. -/
theorem sound_create (concurrency : Nat) {nodeIds : List Int} (hnodup : nodeIds.Nodup) :
    Sound place (create concurrency nodeIds : Consumption β) := by
  have hnone : ∀ (fetcher : Nat) (loop : FetcherLoop β),
      (create concurrency nodeIds : Consumption β).loops[fetcher]? ≠ some loop := by
    intro _ _ hloop
    cases hloop
  have htracked : WorkerQueue.Tracked (WorkerQueue.create concurrency : WorkerQueue β) :=
    WorkerQueue.tracked_create concurrency
  refine ⟨⟨FetchManager.waited_create nodeIds, hnodup, rfl, ?_, ?_⟩, htracked, ?_, ?_, ?_⟩
  · exact fun fetcher loop hloop => absurd hloop (hnone fetcher loop)
  · exact fun first _ loop _ hloop => absurd hloop (hnone first loop)
  · exact fun fetcher loop _ _ hpushing => absurd hpushing.found (hnone fetcher loop)
  · exact fun fetcher loop _ _ hpushing => absurd hpushing.found (hnone fetcher loop)
  · intro item hmem
    obtain ⟨outcomes, houtcomes, -⟩ := htracked.pending item hmem
    cases houtcomes

/-! ## What follows from the invariant -/

/-- The fetcher of the manager that has batches is the one that waits for the worker queue. -/
theorem Arranged.phase (h : state.Arranged) {fetcher : Nat} {loop : FetcherLoop β}
    (hloop : state.loops[fetcher]? = some loop) :
    ∃ current, state.manager.fetchers[fetcher]? = some current ∧
      loop.pushing.isSome = decide (current.phase = .pushing) := by
  have hflag : (state.loops.map fun loop => loop.pushing.isSome)[fetcher]? =
      some loop.pushing.isSome := by
    rw [List.getElem?_map, hloop]
    rfl
  rw [h.pushing, FetchManager.pushing, List.getElem?_map] at hflag
  obtain ⟨current, hcurrent, hphase⟩ := Option.map_eq_some_iff.mp hflag
  exact ⟨current, hcurrent, hphase.symm⟩

/-- A fetcher that waits for the worker queue is a current one. -/
theorem Arranged.current (h : state.Arranged) {fetcher push : Nat} {loop : FetcherLoop β}
    {batches : List β} (hpushing : Pushing state.loops fetcher loop push batches) :
    state.manager.first ≤ fetcher := by
  obtain ⟨current, hcurrent, hphase⟩ := h.phase hpushing.found
  rw [hpushing.waits] at hphase
  have hwaits : current.phase = .pushing := of_decide_eq_true hphase.symm
  refine h.waited.current fetcher current hcurrent ?_
  rw [hwaits]
  nofun

/-- Two current fetchers share a map. -/
theorem Arranged.generation_eq (h : state.Arranged) {first second : Nat}
    {firstLoop secondLoop : FetcherLoop β} (hfirst : state.loops[first]? = some firstLoop)
    (hsecond : state.loops[second]? = some secondLoop)
    (hfirstCurrent : state.manager.first ≤ first)
    (hsecondCurrent : state.manager.first ≤ second) :
    firstLoop.generation = secondLoop.generation := by
  have hone := h.newest first firstLoop hfirst hfirstCurrent
  have htwo := h.newest second secondLoop hsecond hsecondCurrent
  omega

/-- Two batches of one partition that are waited for are waited for by the same fetcher. -/
theorem Sound.same_fetcher (h : Sound place state) {first second firstPush secondPush : Nat}
    {firstLoop secondLoop : FetcherLoop β} {firstBatches secondBatches : List β}
    (hfirst : Pushing state.loops first firstLoop firstPush firstBatches)
    (hsecond : Pushing state.loops second secondLoop secondPush secondBatches)
    {firstBatch secondBatch : β} (hfirstMem : firstBatch ∈ firstBatches)
    (hsecondMem : secondBatch ∈ secondBatches)
    (hkey : assignmentKey (place firstBatch) = assignmentKey (place secondBatch)) :
    first = second := by
  have hone := h.assigned first firstLoop firstPush firstBatches hfirst firstBatch hfirstMem
  have htwo := h.assigned second secondLoop secondPush secondBatches hsecond secondBatch hsecondMem
  have hshared := h.generation_eq hfirst.found hsecond.found (h.current hfirst) (h.current hsecond)
  rw [assignmentsOf, hkey, hshared] at hone
  rw [assignmentsOf, hone] at htwo
  exact h.apart first second firstLoop secondLoop hfirst.found hsecond.found (h.current hfirst)
    (h.current hsecond) (Option.some.inj htwo)

/-- Batches in flight of one partition are one batch. -/
theorem Sound.exclusive (h : Sound place state) : state.Exclusive place := by
  have hitems : state.workerQueue.inFlight.Nodup := h.tracked.nodup.of_map
  refine hitems.map_on fun first hfirst second hsecond hplace => ?_
  obtain ⟨fetcher, loop, batches, hpushing, hbatch⟩ := h.owned first hfirst
  obtain ⟨other, otherLoop, otherBatches, hotherPushing, hotherBatch⟩ := h.owned second hsecond
  have hsame := h.same_fetcher hpushing hotherPushing (List.mem_of_getElem? hbatch)
    (List.mem_of_getElem? hotherBatch) (congrArg assignmentKey hplace)
  subst hsame
  have hloop : loop = otherLoop := Option.some.inj (hpushing.found.symm.trans hotherPushing.found)
  subst hloop
  obtain ⟨hpush, hbatches⟩ := Prod.mk.inj
    (Option.some.inj (hpushing.waits.symm.trans hotherPushing.waits))
  subst hbatches
  -- two batches of one fetch are of different partitions
  have hdistinct := h.distinct fetcher loop first.push batches hpushing
  have hindex : first.index = second.index := by
    have hleft : (batches.map place)[first.index]? = some (place first.batch) := by
      rw [List.getElem?_map, hbatch]
      rfl
    have hright : (batches.map place)[second.index]? = some (place first.batch) := by
      rw [List.getElem?_map, hotherBatch, hplace]
      rfl
    obtain ⟨hlt, -⟩ := List.getElem?_eq_some_iff.mp hleft
    exact (List.getElem?_inj hlt hdistinct).mp (hleft.trans hright.symm)
  rw [hindex, hotherBatch] at hbatch
  have hsameBatch := Option.some.inj hbatch
  obtain ⟨firstBatch, firstPush, firstIndex⟩ := first
  obtain ⟨secondBatch, secondPush, secondIndex⟩ := second
  simp only at hpush hindex hsameBatch
  rw [hpush, hindex, hsameBatch]

/-! ## Events of the manager -/

/-- The manager goes on with the same fetchers, of which the same ones wait for the worker queue. -/
theorem Sound.of_manager (h : Sound place state) {manager : FetchManager} (hwaited : manager.Waited)
    (hnodes : manager.nodeIds.Nodup) (hpushing : manager.pushing = state.manager.pushing)
    (hfirst : manager.first = state.manager.first) : Sound place { state with manager } := by
  refine ⟨⟨hwaited, hnodes, h.pushing.trans hpushing.symm, ?_, ?_⟩, h.tracked, h.distinct,
    h.assigned, h.owned⟩
  · intro fetcher loop hloop hcurrent
    exact h.newest fetcher loop hloop (hfirst ▸ hcurrent)
  · intro first second firstLoop secondLoop hone htwo hfirstCurrent hsecondCurrent
    exact h.apart first second firstLoop secondLoop hone htwo (hfirst ▸ hfirstCurrent)
      (hfirst ▸ hsecondCurrent)

/-- When all fetchers have ended, none of them has batches. -/
theorem Arranged.pushing_eq_none (h : state.Arranged)
    (hended : ∀ fetcher ∈ state.manager.fetchers, fetcher.phase = .ended) {fetcher : Nat}
    {loop : FetcherLoop β} (hloop : state.loops[fetcher]? = some loop) : loop.pushing = none := by
  obtain ⟨current, hcurrent, hphase⟩ := h.phase hloop
  rw [hended current (List.mem_of_getElem? hcurrent)] at hphase
  exact Option.isSome_eq_false_iff.mp hphase |> Option.isNone_iff_eq_none.mp

/-- A fetcher after others have been created is one of the earlier ones, or it is new. -/
theorem getElem?_append_new {loops : List (FetcherLoop β)} {nodeIds : List Int} {generation : Nat}
    {fetcher : Nat} {loop : FetcherLoop β}
    (hloop :
      (loops ++ nodeIds.map fun nodeId => ⟨nodeId, generation, none⟩)[fetcher]? = some loop) :
    loops[fetcher]? = some loop ∨
      loops.length ≤ fetcher ∧ ∃ nodeId, nodeIds[fetcher - loops.length]? = some nodeId ∧
        loop = ⟨nodeId, generation, none⟩ := by
  by_cases hlt : fetcher < loops.length
  · rw [List.getElem?_append_left hlt] at hloop
    exact Or.inl hloop
  · have hle := Nat.le_of_not_lt hlt
    rw [List.getElem?_append_right hle, List.getElem?_map] at hloop
    obtain ⟨nodeId, hnodeId, rfl⟩ := Option.map_eq_some_iff.mp hloop
    exact Or.inr ⟨hle, nodeId, hnodeId, rfl⟩

/-- There is a loop for each fetcher. -/
theorem Arranged.length_loops (h : state.Arranged) :
    state.loops.length = state.manager.fetchers.length := by
  have hflags := congrArg List.length h.pushing
  rwa [List.length_map, FetchManager.pushing, List.length_map] at hflags

/-- What `adopt` makes of new fetchers: they share a new map. -/
theorem adopt_createFetchers {manager : FetchManager}
    (hfetchers : manager.fetchers = state.manager.fetchers) (hnodes : manager.nodeIds ≠ []) :
    state.adopt manager.createFetchers =
      { state with
        manager := manager.createFetchers
        loops := state.loops ++ manager.nodeIds.map fun nodeId =>
          ⟨nodeId, state.partitionAssignments.length, none⟩
        partitionAssignments := state.partitionAssignments ++ [.empty] } := by
  have hnonempty := mt List.isEmpty_iff.mp hnodes
  have hcreated := List.length_pos_iff.mpr hnodes
  unfold FetchManager.createFetchers
  rw [if_neg hnonempty, adopt, if_neg]
  rw [List.length_append, List.length_map, hfetchers]
  omega

/-- Other fetchers start with loops of their own. -/
theorem Arranged.createFetchers (h : state.Arranged) {manager : FetchManager}
    (hfetchers : manager.fetchers = state.manager.fetchers) (hnodup : manager.nodeIds.Nodup)
    (hended : ∀ fetcher ∈ state.manager.fetchers, fetcher.phase = .ended)
    (hnodes : manager.nodeIds ≠ []) : (state.adopt manager.createFetchers).Arranged := by
  have hwaited := FetchManager.waited_createFetchers (hfetchers ▸ hended)
  rw [adopt_createFetchers hfetchers hnodes]
  unfold FetchManager.createFetchers at hwaited ⊢
  rw [if_neg (mt List.isEmpty_iff.mp hnodes)] at hwaited ⊢
  -- the fetchers that were there before belong to an earlier generation
  have hnew : ∀ {fetcher : Nat} {loop : FetcherLoop β}, manager.fetchers.length ≤ fetcher →
      ¬state.loops[fetcher]? = some loop := by
    intro fetcher loop hle hold
    rw [hfetchers, ← h.length_loops] at hle
    exact Nat.not_lt.mpr hle (List.getElem?_eq_some_iff.mp hold).1
  refine ⟨hwaited, hnodup, ?_, ?_, ?_⟩
  · rw [FetchManager.pushing, List.map_append, List.map_append, hfetchers, h.pushing,
      FetchManager.pushing, List.map_map, List.map_map]
    congr 1
    refine List.map_congr_left fun nodeId _ => ?_
    exact (decide_eq_false (FetchManager.turn_phase manager _)).symm
  · intro fetcher loop hloop hcurrent
    obtain ⟨-, nodeId, -, rfl⟩ := (getElem?_append_new hloop).resolve_left (hnew hcurrent)
    show _ = (state.partitionAssignments ++ [_]).length
    rw [List.length_append]
    rfl
  · intro first second firstLoop secondLoop hone htwo hfirstCurrent hsecondCurrent hnodeId
    obtain ⟨hfirstLe, _, hfirstNode, rfl⟩ :=
      (getElem?_append_new hone).resolve_left (hnew hfirstCurrent)
    obtain ⟨hsecondLe, _, hsecondNode, rfl⟩ :=
      (getElem?_append_new htwo).resolve_left (hnew hsecondCurrent)
    dsimp only at hnodeId
    subst hnodeId
    have hlt := (List.getElem?_eq_some_iff.mp hfirstNode).1
    have hsame := (List.getElem?_inj hlt hnodup).mp (hfirstNode.trans hsecondNode.symm)
    omega

/-- New fetchers, when all others have ended: no batch is in flight then. -/
theorem Sound.createFetchers (h : Sound place state) {manager : FetchManager}
    (hfetchers : manager.fetchers = state.manager.fetchers)
    (hfirst : manager.first = state.manager.first) (hnodup : manager.nodeIds.Nodup)
    (hended : ∀ fetcher ∈ state.manager.fetchers, fetcher.phase = .ended) :
    Sound place (state.adopt manager.createFetchers) := by
  by_cases hnodes : manager.nodeIds = []
  · -- there is no node to fetch from: `start` throws
    have hwaited := FetchManager.waited_createFetchers (hfetchers ▸ hended)
    unfold FetchManager.createFetchers at hwaited ⊢
    rw [if_pos (List.isEmpty_iff.mpr hnodes)] at hwaited ⊢
    rw [adopt, if_pos (congrArg List.length hfetchers)]
    refine h.of_manager hwaited hnodup ?_ hfirst
    rw [FetchManager.pushing, FetchManager.pushing, hfetchers]
  · have harranged := h.toArranged.createFetchers hfetchers hnodup hended hnodes
    rw [adopt_createFetchers hfetchers hnodes] at harranged ⊢
    have hnone : ∀ (fetcher : Nat) (loop : FetcherLoop β),
        (state.loops ++ manager.nodeIds.map fun nodeId =>
          ⟨nodeId, state.partitionAssignments.length, none⟩)[fetcher]? = some loop →
        loop.pushing = none := by
      intro fetcher loop hloop
      rcases getElem?_append_new hloop with hold | ⟨-, nodeId, -, rfl⟩
      · exact h.pushing_eq_none hended hold
      · rfl
    refine ⟨harranged, h.tracked, ?_, ?_, ?_⟩
    · intro fetcher loop push batches hpushing
      cases (hnone fetcher loop hpushing.found).symm.trans hpushing.waits
    · intro fetcher loop push batches hpushing
      cases (hnone fetcher loop hpushing.found).symm.trans hpushing.waits
    · intro item hmem
      obtain ⟨fetcher, loop, batches, hpushing, -⟩ := h.owned item hmem
      cases (h.pushing_eq_none hended hpushing.found).symm.trans hpushing.waits

/-! ## Events of the worker queue -/

/-- A worker goes on: nothing is in flight that was not before. -/
theorem Sound.of_workerQueue (h : Sound place state) {workerQueue : WorkerQueue β}
    (htracked : workerQueue.Tracked)
    (hmem : ∀ item ∈ workerQueue.inFlight, item ∈ state.workerQueue.inFlight) :
    Sound place { state with workerQueue } :=
  ⟨⟨h.waited, h.nodes, h.pushing, h.newest, h.apart⟩, htracked, h.distinct, h.assigned,
    fun item hitem => h.owned item (hmem item hitem)⟩

/-! ## Events of one fetcher -/

/-- The fetchers after one of them has begun or ended its push. -/
theorem Arranged.setLoop (h : state.Arranged) {manager : FetchManager} {fetcher : Nat}
    {old : FetcherLoop β} (hold : state.loops[fetcher]? = some old) (loop : FetcherLoop β)
    (hnodeId : loop.nodeId = old.nodeId) (hgeneration : loop.generation = old.generation)
    (hwaited : manager.Waited) (hnodup : manager.nodeIds.Nodup)
    (hpushing : manager.pushing = state.manager.pushing.set fetcher loop.pushing.isSome)
    (hfirst : manager.first = state.manager.first) (workerQueue : WorkerQueue β)
    (assignments : InsertionMap String Int) :
    ({ state with manager, workerQueue }.setLoop fetcher loop assignments).Arranged := by
  -- the loop that is replaced keeps its node and its generation
  have hbefore : ∀ {other : Nat} {state' : FetcherLoop β},
      (state.loops.set fetcher loop)[other]? = some state' →
      ∃ before, state.loops[other]? = some before ∧ state'.nodeId = before.nodeId ∧
        state'.generation = before.generation := by
    intro other state' hstate
    by_cases heq : fetcher = other
    · subst heq
      rw [List.getElem?_set_self (List.getElem?_eq_some_iff.mp hold).1] at hstate
      cases hstate
      exact ⟨old, hold, hnodeId, hgeneration⟩
    · rw [List.getElem?_set_ne heq] at hstate
      exact ⟨state', hstate, rfl, rfl⟩
  refine ⟨hwaited, hnodup, ?_, ?_, ?_⟩
  · show (state.loops.set fetcher loop).map _ = manager.pushing
    rw [List.map_set, h.pushing, hpushing]
  · intro other state' hstate hcurrent
    obtain ⟨before, hfound, -, hsame⟩ := hbefore hstate
    show _ = (state.partitionAssignments.set _ _).length
    rw [hsame, List.length_set]
    exact h.newest other before hfound (hfirst ▸ hcurrent)
  · intro first second firstLoop secondLoop hone htwo hfirstCurrent hsecondCurrent hsame
    obtain ⟨firstBefore, hfirstFound, hfirstNode, -⟩ := hbefore hone
    obtain ⟨secondBefore, hsecondFound, hsecondNode, -⟩ := hbefore htwo
    exact h.apart first second firstBefore secondBefore hfirstFound hsecondFound
      (hfirst ▸ hfirstCurrent) (hfirst ▸ hsecondCurrent)
      (hfirstNode.symm.trans (hsame.trans hsecondNode))

/-- Who waits for the worker queue after one fetcher has been replaced. -/
theorem Pushing.set_cases {loops : List (FetcherLoop β)} {fetcher other push : Nat}
    {replaced loop : FetcherLoop β} {batches : List β}
    (hpushing : Pushing (loops.set fetcher replaced) other loop push batches) :
    other = fetcher ∧ loop = replaced ∨
      other ≠ fetcher ∧ Pushing loops other loop push batches := by
  obtain ⟨hfound, hwaits⟩ := hpushing
  rw [List.getElem?_set] at hfound
  split at hfound
  · next heq =>
      split at hfound
      · exact Or.inl ⟨heq.symm, (Option.some.inj hfound).symm⟩
      · cases hfound
  · next hne => exact Or.inr ⟨Ne.symm hne, hfound, hwaits⟩

/-- The other fetchers go on to wait. -/
theorem Pushing.set_ne {loops : List (FetcherLoop β)} {fetcher other push : Nat}
    {loop : FetcherLoop β} {batches : List β} (hpushing : Pushing loops other loop push batches)
    (hne : other ≠ fetcher) (replaced : FetcherLoop β) :
    Pushing (loops.set fetcher replaced) other loop push batches :=
  ⟨(List.getElem?_set_ne hne.symm).trans hpushing.found, hpushing.waits⟩

/-- Every current fetcher sees the map as one of them has left it. -/
theorem Arranged.assignmentsOf_setLoop (h : state.Arranged) {fetcher other : Nat}
    {loop otherLoop : FetcherLoop β} (hloop : state.loops[fetcher]? = some loop)
    (hcurrent : state.manager.first ≤ fetcher) (replaced : FetcherLoop β)
    (hgeneration : replaced.generation = loop.generation)
    (hother : state.loops[other]? = some otherLoop) (hotherCurrent : state.manager.first ≤ other)
    (manager : FetchManager) (workerQueue : WorkerQueue β)
    (assignments : InsertionMap String Int) :
    ({ state with manager, workerQueue }.setLoop fetcher replaced assignments).assignmentsOf
      otherLoop = assignments := by
  have hnewest := h.newest fetcher loop hloop hcurrent
  have hlt : loop.generation < state.partitionAssignments.length := by omega
  show (state.partitionAssignments.set replaced.generation assignments).getD
    otherLoop.generation .empty = assignments
  rw [hgeneration, h.generation_eq hother hloop hotherCurrent hcurrent,
    List.getD_eq_getElem?_getD, List.getElem?_set_self hlt]
  rfl

/-- A fetcher pushes the batches whose partitions no other fetcher has. -/
theorem Sound.push (h : Sound place state) {manager : FetchManager} {fetcher : Nat}
    {loop : FetcherLoop β} (hloop : state.loops[fetcher]? = some loop)
    (hidle : loop.pushing = none) (hcurrent : state.manager.first ≤ fetcher)
    (hwaited : manager.Waited) (hnodup : manager.nodeIds.Nodup)
    (hpushing : manager.pushing = state.manager.pushing.set fetcher true)
    (hfirst : manager.first = state.manager.first) (result : FetchResult place)
    {available : List β} (havailable : available =
      filterUnassignedBatches place (state.assignmentsOf loop) loop.nodeId result.batches) :
    Sound place ({ state with manager, workerQueue := state.workerQueue.push available }.setLoop
      fetcher { loop with pushing := some (state.workerQueue.pushes.length, available) }
      (assignAll place loop.nodeId available (state.assignmentsOf loop))) := by
  have hlt := (List.getElem?_eq_some_iff.mp hloop).1
  refine ⟨h.toArranged.setLoop hloop
    { loop with pushing := some (state.workerQueue.pushes.length, available) } rfl rfl hwaited
    hnodup hpushing hfirst _ _, h.tracked.push available, ?_, ?_, ?_⟩
  · intro other otherLoop push batches hwaits
    rcases hwaits.set_cases with ⟨-, rfl⟩ | ⟨-, hwaits⟩
    · cases hwaits.waits
      rw [havailable]
      exact result.distinct.sublist (List.filter_sublist.map place)
    · exact h.distinct other otherLoop push batches hwaits
  · intro other otherLoop push batches hwaits batch hbatch
    have hmap : ∀ {other : Nat} {otherLoop : FetcherLoop β},
        state.loops[other]? = some otherLoop → state.manager.first ≤ other →
        assignmentsOf _ otherLoop = _ := fun hother hotherCurrent =>
      h.toArranged.assignmentsOf_setLoop hloop hcurrent
        { loop with pushing := some (state.workerQueue.pushes.length, available) } rfl hother
        hotherCurrent manager (state.workerQueue.push available)
        (assignAll place loop.nodeId available (state.assignmentsOf loop))
    rcases hwaits.set_cases with ⟨-, rfl⟩ | ⟨-, hwaits⟩
    · cases hwaits.waits
      refine (congrArg (fun map => map.get? (assignmentKey (place batch)))
        (hmap hloop hcurrent)).trans ?_
      rw [get?_assignAll, if_pos (List.mem_map_of_mem hbatch)]
    · have hothers := h.assigned other otherLoop push batches hwaits batch hbatch
      rw [assignmentsOf, h.generation_eq hwaits.found hloop (h.current hwaits) hcurrent] at hothers
      refine (congrArg (fun map => map.get? (assignmentKey (place batch)))
        (hmap hwaits.found (h.current hwaits))).trans ?_
      rw [get?_assignAll]
      split
      · next hmem =>
          -- the partition has passed the filter, so it is noted for this node already
          obtain ⟨taken, htaken, hkey⟩ := List.mem_map.mp hmem
          rw [havailable] at htaken
          have hnode := (mem_filterUnassignedBatches.mp htaken).2 otherLoop.nodeId
          rw [hkey] at hnode
          rw [hnode hothers]
      · exact hothers
  · intro item hitem
    rcases List.mem_append.mp ((WorkerQueue.push_inFlight available _).mem_iff.mp hitem) with
      hnew | hold
    · obtain ⟨hpush, hbatch⟩ := WorkerQueue.mem_itemsOf.mp hnew
      refine ⟨fetcher, _, available, ⟨List.getElem?_set_self hlt, ?_⟩, hbatch⟩
      rw [hpush]
    · obtain ⟨other, otherLoop, batches, hwaits, hbatch⟩ := h.owned item hold
      refine ⟨other, otherLoop, batches, hwaits.set_ne ?_ _, hbatch⟩
      rintro rfl
      cases hloop.symm.trans hwaits.found
      cases hidle.symm.trans hwaits.waits

/-- A push has returned: its batches are not in flight, and no other fetcher has their
partitions. -/
theorem Sound.unassign (h : Sound place state) {manager : FetchManager} {fetcher push : Nat}
    {loop : FetcherLoop β} {batches : List β}
    (hpush : Pushing state.loops fetcher loop push batches) {error : Option KafkaError}
    (hresult : state.workerQueue.result push = some error) (hwaited : manager.Waited)
    (hnodup : manager.nodeIds.Nodup)
    (hpushing : manager.pushing = state.manager.pushing.set fetcher false)
    (hfirst : manager.first = state.manager.first) :
    Sound place (state.unassign place fetcher loop batches manager) := by
  have hcurrent := h.current hpush
  refine ⟨h.toArranged.setLoop hpush.found { loop with pushing := none } rfl rfl hwaited hnodup
    hpushing hfirst _ _, h.tracked, ?_, ?_, ?_⟩
  · intro other otherLoop otherPush otherBatches hwaits
    rcases hwaits.set_cases with ⟨-, rfl⟩ | ⟨-, hwaits⟩
    · cases hwaits.waits
    · exact h.distinct other otherLoop otherPush otherBatches hwaits
  · intro other otherLoop otherPush otherBatches hwaits batch hbatch
    rcases hwaits.set_cases with ⟨-, rfl⟩ | ⟨hne, hwaits⟩
    · cases hwaits.waits
    · have hothers := h.assigned other otherLoop otherPush otherBatches hwaits batch hbatch
      rw [assignmentsOf,
        h.generation_eq hwaits.found hpush.found (h.current hwaits) hcurrent] at hothers
      have hmap := h.toArranged.assignmentsOf_setLoop hpush.found hcurrent
        { loop with pushing := none } rfl hwaits.found (h.current hwaits) manager
        state.workerQueue (unassignAll place batches (state.assignmentsOf loop))
      refine (congrArg (fun map => map.get? (assignmentKey (place batch))) hmap).trans ?_
      rw [get?_unassignAll, if_neg]
      · exact hothers
      -- a partition that is taken out was assigned to the fetcher of this push
      · intro hmem
        obtain ⟨done, hdone, hkey⟩ := List.mem_map.mp hmem
        exact hne (h.same_fetcher hwaits hpush hbatch hdone hkey.symm)
  · intro item hitem
    obtain ⟨other, otherLoop, otherBatches, hwaits, hbatch⟩ := h.owned item hitem
    refine ⟨other, otherLoop, otherBatches, hwaits.set_ne ?_ _, hbatch⟩
    rintro rfl
    cases hpush.found.symm.trans hwaits.found
    have hsame := (Prod.mk.inj (Option.some.inj (hpush.waits.symm.trans hwaits.waits))).1
    exact h.tracked.push_ne hresult item hitem hsame.symm

/-- A fetch has returned. -/
theorem Sound.fetched (h : Sound place state) {fetcher : Nat} {result : FetchResult place}
    (hstep : state.step place (.fetched fetcher result) = some next) : Sound place next := by
  simp only [step] at hstep
  split at hstep
  · next loop current hloop hcurrent =>
      obtain ⟨manager, hmanager, rfl⟩ := Option.map_eq_some_iff.mp hstep
      have hwaited := h.waited.step (by simp) hmanager
      obtain ⟨fetching, hfound, hphase, rfl⟩ := FetchManager.fetched_cases hmanager
      cases hcurrent.symm.trans hfound
      split
      · next hpush =>
          rw [if_pos hpush] at hwaited
          obtain ⟨before, hbefore, hflag⟩ := h.phase hloop
          cases hcurrent.symm.trans hbefore
          rw [hphase] at hflag
          refine h.push hloop (Option.not_isSome_iff_eq_none.mp (by rw [hflag]; nofun)) ?_ hwaited
            h.nodes ?_ rfl result rfl
          · exact h.waited.current fetcher current hcurrent (by rw [hphase]; nofun)
          · rw [FetchManager.pushing_setFetcher]
            rfl
      · next hnot =>
          rw [if_neg hnot] at hwaited
          refine h.of_manager hwaited h.nodes ?_ rfl
          exact FetchManager.pushing_setFetcher_of_not hcurrent (by rw [hphase]; nofun)
            (FetchManager.turn_phase _ _)
  · cases hstep

/-- A push has returned or thrown. -/
theorem Sound.pushed (h : Sound place state) {fetcher : Nat}
    (hstep : state.step place (.pushed fetcher) = some next) : Sound place next := by
  simp only [step] at hstep
  split at hstep
  · next loop hloop =>
      split at hstep
      · next push batches hwaits =>
          split at hstep
          · next hresult =>
              obtain ⟨manager, hmanager, rfl⟩ := Option.map_eq_some_iff.mp hstep
              have hwaited := h.waited.step (by simp) hmanager
              obtain ⟨current, -, -, rfl⟩ := FetchManager.pushed_cases hmanager
              refine h.unassign ⟨hloop, hwaits⟩ hresult hwaited h.nodes ?_ rfl
              rw [FetchManager.pushing_setFetcher, decide_eq_false (FetchManager.turn_phase _ _)]
          · next error hresult =>
              obtain ⟨manager, hmanager, rfl⟩ := Option.map_eq_some_iff.mp hstep
              have hwaited := h.waited.step (by simp) hmanager
              obtain ⟨current, -, -, rfl⟩ := FetchManager.fails_cases hmanager
              refine h.unassign ⟨hloop, hwaits⟩ hresult hwaited ?_ ?_ ?_
              · rw [FetchManager.fail_nodeIds]
                exact h.nodes
              · rw [FetchManager.pushing_fail, FetchManager.pushing_setFetcher]
                rfl
              · exact (FetchManager.fail_frame _ fetcher error).2.1
          · cases hstep
      · cases hstep
  · cases hstep

/-- A fetch has failed. -/
theorem Sound.fetchFails (h : Sound place state) {fetcher : Nat} {error : KafkaError}
    (hstep : state.step place (.fetchFails fetcher error) = some next) : Sound place next := by
  simp only [step] at hstep
  split at hstep
  · next current hcurrent =>
      obtain ⟨hphase, hstep⟩ := Option.ite_none_left_eq_some.mp hstep
      obtain ⟨manager, hmanager, rfl⟩ := Option.map_eq_some_iff.mp hstep
      have hwaited := h.waited.step (by simp) hmanager
      obtain ⟨found, hfound, -, rfl⟩ := FetchManager.fails_cases hmanager
      cases hcurrent.symm.trans hfound
      refine h.of_manager hwaited ?_ ?_ (FetchManager.fail_frame _ fetcher error).2.1
      · rw [FetchManager.fail_nodeIds]
        exact h.nodes
      · rw [FetchManager.pushing_fail]
        exact FetchManager.pushing_setFetcher_of_not hcurrent hphase nofun
  · cases hstep

/-- `start` begins, or goes on after its fetchers have stopped. -/
theorem Sound.start (h : Sound place state) {manager : FetchManager}
    (hmanager : state.manager.step .start = some manager) : Sound place (state.adopt manager) := by
  obtain ⟨hidle, hnext⟩ := Option.ite_none_right_eq_some.mp hmanager
  cases hnext
  exact h.createFetchers rfl rfl h.nodes (h.waited.idle hidle)

/-- The end of an internal stop keeps the exclusion. -/
theorem Sound.internalStopped (h : Sound place state) {manager : FetchManager}
    (hmanager : state.manager.step .internalStopped = some manager) :
    Sound place (state.adopt manager) := by
  have hwaited := h.waited.step (by simp) hmanager
  simp only [FetchManager.step] at hmanager
  split at hmanager
  · next error awaited hphase =>
      obtain ⟨hended, hnext⟩ := Option.ite_none_right_eq_some.mp hmanager
      split at hnext
      · cases hnext
        exact h.createFetchers rfl rfl h.nodes (h.waited.ended_of_stopped hphase hended)
      · cases hnext
        rw [adopt, if_pos rfl]
        exact h.of_manager hwaited h.nodes rfl rfl
  · cases hmanager

/-- The fetch manager does not touch the batches that run. -/
theorem adopt_running (state : Consumption β) (manager : FetchManager) :
    (state.adopt manager).running = state.running := by
  unfold adopt
  split <;> rfl

/-- A fetcher does not touch the batches that run. -/
theorem setLoop_running (state : Consumption β) (fetcher : Nat) (loop : FetcherLoop β)
    (assignments : InsertionMap String Int) :
    (state.setLoop fetcher loop assignments).running = state.running := rfl

/-- Giving up partitions does not touch the batches that run. -/
theorem unassign_running (state : Consumption β) (fetcher : Nat) (loop : FetcherLoop β)
    (batches : List β) (manager : FetchManager) :
    (state.unassign place fetcher loop batches manager).running = state.running := rfl

/-- A runner that is running has been so before. -/
theorem running_of_step {event : ConsumptionEvent place}
    (hstep : state.step place event = some next) (hrunning : next.running = true) :
    state.running = true := by
  cases event <;> simp only [step] at hstep <;>
    grind [Option.map_eq_some_iff, adopt_running, setLoop_running, unassign_running]

/-- Every event keeps the invariant as long as the runner is running. -/
theorem Sound.step {event : ConsumptionEvent place} (h : state.running = true → Sound place state)
    (hstep : state.step place event = some next) (hrunning : next.running = true) :
    Sound place next := by
  have h := h (running_of_step hstep hrunning)
  cases event with
  | nodes nodeIds distinct =>
      cases hstep
      have hwaited : FetchManager.Waited { state.manager with nodeIds } :=
        ⟨h.waited.current, h.waited.idle, h.waited.waiting, h.waited.stopping⟩
      exact h.of_manager hwaited distinct rfl rfl
  | start =>
      obtain ⟨-, hstart⟩ := Option.ite_none_right_eq_some.mp hstep
      obtain ⟨manager, hmanager, rfl⟩ := Option.map_eq_some_iff.mp hstart
      exact h.start hmanager
  | fetched => exact h.fetched hstep
  | fetchFails => exact h.fetchFails hstep
  | pushed => exact h.pushed hstep
  | handled worker error =>
      obtain ⟨workerQueue, hsettle, rfl⟩ := Option.map_eq_some_iff.mp hstep
      obtain ⟨item, hperm, -⟩ := WorkerQueue.settle_inFlight hsettle
      exact h.of_workerQueue (h.tracked.settle hsettle) fun other hmem =>
        hperm.mem_iff.mp (List.mem_cons_of_mem _ hmem)
  | cleared worker =>
      obtain ⟨workerQueue, hclear, rfl⟩ := Option.map_eq_some_iff.mp hstep
      exact h.of_workerQueue (h.tracked.clear hclear) fun other hmem =>
        (WorkerQueue.clear_inFlight hclear).1.mem_iff.mp hmem
  | allEnded =>
      obtain ⟨manager, hmanager, rfl⟩ := Option.map_eq_some_iff.mp hstep
      have hwaited := h.waited.step (by simp) hmanager
      obtain ⟨-, hnext⟩ := Option.ite_none_right_eq_some.mp hmanager
      cases hnext
      exact h.of_manager hwaited h.nodes rfl rfl
  | caught =>
      obtain ⟨manager, hmanager, rfl⟩ := Option.map_eq_some_iff.mp hstep
      have hwaited := h.waited.step (by simp) hmanager
      simp only [FetchManager.step] at hmanager
      split at hmanager
      · cases hmanager
        exact h.of_manager hwaited h.nodes (FetchManager.pushing_clearRunning _) rfl
      · cases hmanager
  | internalStopped =>
      obtain ⟨manager, hmanager, rfl⟩ := Option.map_eq_some_iff.mp hstep
      exact h.internalStopped hmanager
  | stop =>
      obtain ⟨-, hstop⟩ := Option.ite_none_right_eq_some.mp hstep
      obtain ⟨manager, -, rfl⟩ := Option.map_eq_some_iff.mp hstop
      cases hrunning
  | stopResolved call =>
      obtain ⟨manager, hmanager, rfl⟩ := Option.map_eq_some_iff.mp hstep
      have hwaited := h.waited.step (by simp) hmanager
      simp only [FetchManager.step] at hmanager
      split at hmanager
      · obtain ⟨-, hnext⟩ := Option.ite_none_right_eq_some.mp hmanager
        cases hnext
        exact h.of_manager hwaited h.nodes rfl rfl
      · cases hmanager

/-- In every run, as long as the runner is running, no two batches in the worker queue or with a
handler are of the same topic and partition. -/
theorem exclusive_of_run {concurrency : Nat} {nodeIds : List Int} (hnodup : nodeIds.Nodup)
    {events : List (ConsumptionEvent place)} (hrun :
      run (step place) (create concurrency nodeIds : Consumption β) events = some state)
    (hrunning : state.running = true) : state.Exclusive place := by
  have hsound : state.running = true → Sound place state :=
    invariant_of_run (fun _ _ _ h hstep => Sound.step h hstep)
      (fun _ => sound_create concurrency hnodup) hrun
  exact (hsound hrunning).exclusive

/-- Two nodes answer with the same partition, a third one joins, and its fetcher gets the partition
once all earlier fetchers have ended. -/
def joiningNode : List (ConsumptionEvent (id : String × Int → String × Int)) :=
  [.start, .fetched 0 ⟨[("topic", 0)], by decide⟩, .cleared 1,
    .fetched 1 ⟨[("topic", 0), ("topic", 1)], by decide⟩, .nodes [1, 2, 3] (by decide),
    .handled 0 none, .pushed 0, .fetchFails 0 fetcherRebalanceError, .caught, .handled 1 none,
    .pushed 1, .internalStopped, .cleared 0, .cleared 1,
    .fetched 4 ⟨[("topic", 0)], by decide⟩, .fetched 2 ⟨[("topic", 0), ("topic", 2)], by decide⟩]

/-- A node that joins leaves the partitions exclusive. -/
theorem exclusive_joiningNode : ∃ state : Consumption (String × Int),
    run (step id) (create 2 [1, 2]) joiningNode = some state ∧
      state.workerQueue.inFlight.map Item.batch = [("topic", 2), ("topic", 0)] ∧
        state.Exclusive id := by
  have hinFlight : (run (step id) (create 2 [1, 2]) joiningNode).map (fun state =>
      (state.running, state.workerQueue.inFlight.map Item.batch)) =
        some (true, [("topic", 2), ("topic", 0)]) := by decide
  obtain ⟨state, hrun, hstate⟩ := Option.map_eq_some_iff.mp hinFlight
  obtain ⟨hrunning, hbatches⟩ := Prod.mk.inj hstate
  exact ⟨state, hrun, hbatches, exclusive_of_run (by decide) hrun hrunning⟩

end Consumption

end KafkaJs.Consumer
