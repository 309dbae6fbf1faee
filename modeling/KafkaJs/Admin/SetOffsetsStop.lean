import KafkaJs.Admin.SetOffsets
import KafkaJs.Consumer.FetcherGenerations

/-!
# The end of the temporary consumer

The first FETCH event finds all fetchers running, so that the call of `stop` waits for each of them.
A fetcher ends after its fetch, and therefore every fetch has emitted FETCH when the promise
resolves: `Halting` is kept by every event, whatever the fetches fail with.
-/

namespace KafkaJs.Admin.SetOffsets

open Consumer Data

variable {state next : SetOffsets} {partitions : List SeekEntry} {fetcher : Nat}

/-- The fetchers of the nodes, beside their fetches. Until the first FETCH event they all run, and
the call of `stop` then waits for all of them. -/
structure Halting (state : SetOffsets) : Prop where
  length : state.fetches.length = state.topic.nodeIds.length
  created : state.fetches.length ≤ state.manager.fetchers.length
  /-- A fetcher ends after its fetch. -/
  ended : ∀ (fetcher : Nat) (current : Fetcher), fetcher < state.fetches.length →
    state.manager.fetchers[fetcher]? = some current → current.phase = .ended →
      state.fetches[fetcher]? = some .returned
  first : state.running = true → state.manager.first = 0 ∧ state.manager.stops = [] ∧
    (state.manager.startPhase = .idle ∨ state.manager.startPhase = .waiting none)
  fetching : state.running = true → ∀ phase ∈ state.fetches, phase ≠ .returned
  isRunning : state.running = true → ∀ current ∈ state.manager.fetchers, current.isRunning = true
  stopped : state.running = false → ∃ call, state.manager.stops = [call] ∧
    ∀ fetcher < state.fetches.length, fetcher ∈ call.awaited
  resolved : state.resolved = true → ∀ phase ∈ state.fetches, phase = .returned

/-- The fetchers that `start` has created. -/
theorem fetchers_create (topic : TopicLeaders) (partitions : List SeekEntry) :
    (create topic partitions).manager.fetchers.length = topic.nodeIds.length ∧
      (∀ current ∈ (create topic partitions).manager.fetchers, current.isRunning = true ∧
        current.phase ≠ .ended) ∧
      (create topic partitions).manager.first = 0 ∧ (create topic partitions).manager.stops = [] ∧
      ((create topic partitions).manager.startPhase = .idle ∨
        (create topic partitions).manager.startPhase = .waiting none) := by
  by_cases hnodes : topic.nodeIds = []
  · have hmanager : (create topic partitions).manager =
        { FetchManager.create topic.nodeIds with starts := 1, startPhase := .idle } :=
      if_pos (List.isEmpty_iff.mpr hnodes)
    rw [hmanager, hnodes]
    exact ⟨rfl, nofun, rfl, rfl, Or.inl rfl⟩
  · have hmanager : (create topic partitions).manager =
        { FetchManager.create topic.nodeIds with
          starts := 1
          startPhase := .waiting none
          fetchers := topic.nodeIds.map fun _ =>
            ({ FetchManager.create topic.nodeIds with starts := 1 }).turn
              ⟨topic.nodeIds, true, .ended⟩ } :=
      if_neg (mt List.isEmpty_iff.mp hnodes)
    rw [hmanager]
    refine ⟨List.length_map _, ?_, rfl, rfl, Or.inr rfl⟩
    intro current hmem
    obtain ⟨nodeId, -, rfl⟩ := List.mem_map.mp hmem
    refine ⟨FetchManager.turn_isRunning _ _, fun hended => ?_⟩
    cases FetchManager.turn_ended hended

/-- A consumer that has just been created can halt. -/
theorem halting_create (topic : TopicLeaders) (partitions : List SeekEntry) :
    Halting (create topic partitions) := by
  obtain ⟨hlength, hfetchers, hfirst⟩ := fetchers_create topic partitions
  have hfetches : (create topic partitions).fetches.length = topic.nodeIds.length :=
    List.length_map _
  refine ⟨hfetches, Nat.le_of_eq (hfetches.trans hlength.symm), ?_, fun _ => hfirst, ?_, ?_, nofun,
    nofun⟩
  · exact fun fetcher current _ hcurrent hended =>
      absurd hended (hfetchers current (List.mem_of_getElem? hcurrent)).2
  · intro _ phase hmem
    obtain ⟨_, -, rfl⟩ := List.mem_map.mp hmem
    nofun
  · exact fun _ current hmem => (hfetchers current hmem).1

/-- A fetch that goes on. -/
theorem Halting.set (h : Halting state) {old phase : SeekPhase}
    (hold : state.fetches[fetcher]? = some old) (holdPhase : old ≠ .returned)
    (hphase : phase ≠ .returned) (seekOffset : InsertionMap Int Int) (committed : List SeekEntry) :
    Halting { state with fetches := state.fetches.set fetcher phase, seekOffset, committed } := by
  have hlength : (state.fetches.set fetcher phase).length = state.fetches.length :=
    List.length_set
  have hmem := List.mem_of_getElem? hold
  refine ⟨hlength.trans h.length, hlength.trans_le h.created, ?_, h.first, ?_, h.isRunning, ?_, ?_⟩
  · intro other current hlt hcurrent hended
    have hreturned := h.ended other current (hlength ▸ hlt) hcurrent hended
    by_cases heq : fetcher = other
    · subst heq
      exact absurd (Option.some.inj (hold.symm.trans hreturned)) holdPhase
    · exact (List.getElem?_set_ne heq).trans hreturned
  · intro hrunning other hother
    rcases List.mem_or_eq_of_mem_set hother with hother | rfl
    · exact h.fetching hrunning other hother
    · exact hphase
  · intro hrunning
    obtain ⟨call, hstops, hawaited⟩ := h.stopped hrunning
    exact ⟨call, hstops, fun other hlt => hawaited other (hlength ▸ hlt)⟩
  · intro hresolved
    exact absurd (h.resolved hresolved old hmem) holdPhase

/-- A fetch emits FETCH. -/
theorem Halting.emitFetch (h : Halting state) (hlt : fetcher < state.fetches.length)
    (hemit : state.emitFetch fetcher = some next) : Halting next := by
  have hlength : (state.fetches.set fetcher .returned).length = state.fetches.length :=
    List.length_set
  -- the fetch returns, and those that had returned before have still
  have hreturned : ∀ other : Nat, state.fetches[other]? = some .returned →
      (state.fetches.set fetcher .returned)[other]? = some .returned := by
    intro other hother
    rw [List.getElem?_set]
    split
    · rfl
    · exact hother
  unfold SetOffsets.emitFetch at hemit
  split at hemit
  · next hrunning =>
      cases hemit
      -- the listener stops the consumer, which waits for every fetcher that is still running
      obtain ⟨hfirst, hstops, -⟩ := h.first hrunning
      refine ⟨hlength.trans h.length, ?_, ?_, nofun, nofun, nofun, ?_, ?_⟩
      · show (state.fetches.set fetcher .returned).length ≤ (state.manager.fetchers.mapIdx _).length
        rw [hlength, List.length_mapIdx]
        exact h.created
      · intro other current hother hcurrent hended
        obtain ⟨old, hold, hphase⟩ := FetchManager.phase_clearRunning hcurrent
        exact hreturned other (h.ended other old (hlength ▸ hother) hold (hphase ▸ hended))
      · intro _
        refine ⟨⟨state.manager.running, state.manager.starts⟩, ?_, fun other hother => ?_⟩
        · show state.manager.stops ++ _ = _
          rw [hstops]
          rfl
        · have hcreated := Nat.lt_of_lt_of_le (hlength ▸ hother) h.created
          refine FetchManager.mem_running (List.getElem?_eq_getElem hcreated) ?_ ?_
          · rw [hfirst]
            exact Nat.zero_le other
          · exact h.isRunning hrunning _ (List.getElem_mem hcreated)
      · intro hresolved phase hmem
        rcases List.mem_or_eq_of_mem_set hmem with hmem | rfl
        · exact h.resolved hresolved phase hmem
        · rfl
  -- the consumer is stopped already, so the listener changes nothing but the fetch
  · next hstopped =>
      cases hemit
      refine ⟨hlength.trans h.length, hlength.trans_le h.created, ?_, ?_, ?_, ?_, ?_, ?_⟩
      · exact fun other current hother hcurrent hended =>
          hreturned other (h.ended other current (hlength ▸ hother) hcurrent hended)
      · exact fun hrunning => absurd hrunning hstopped
      · exact fun hrunning => absurd hrunning hstopped
      · exact fun hrunning => absurd hrunning hstopped
      · intro hrunning
        obtain ⟨call, hstops, hawaited⟩ := h.stopped hrunning
        exact ⟨call, hstops, fun other hother => hawaited other (hlength ▸ hother)⟩
      · intro hresolved phase hmem
        rcases List.mem_or_eq_of_mem_set hmem with hmem | rfl
        · exact h.resolved hresolved phase hmem
        · rfl

/-- `start` hears of an error only after the consumer has been stopped. -/
theorem Halting.not_running (h : Halting state) (hidle : state.manager.startPhase ≠ .idle)
    (hwaiting : state.manager.startPhase ≠ .waiting none) : state.running = false := by
  refine Bool.eq_false_iff.mpr fun hrunning => ?_
  rcases (h.first hrunning).2.2 with hphase | hphase
  · exact hidle hphase
  · exact hwaiting hphase

/-- The manager goes on after the consumer has been stopped. -/
theorem Halting.of_manager (h : Halting state) (hrunning : state.running = false)
    {manager : FetchManager} (hstops : manager.stops = state.manager.stops)
    (hcreated : state.manager.fetchers.length ≤ manager.fetchers.length)
    (hended : ∀ (other : Nat) (current : Fetcher), other < state.manager.fetchers.length →
      manager.fetchers[other]? = some current → current.phase = .ended →
        state.fetches[other]? = some .returned ∨
          ∃ old, state.manager.fetchers[other]? = some old ∧ old.phase = .ended) :
    Halting { state with manager } := by
  have hnot : ∀ {P : Prop}, state.running = true → P := fun hset =>
    absurd hset (Bool.eq_false_iff.mp hrunning)
  refine ⟨h.length, Nat.le_trans h.created hcreated, ?_, hnot, hnot, hnot, ?_, h.resolved⟩
  · intro other current hlt hcurrent hphase
    rcases hended other current (Nat.lt_of_lt_of_le hlt h.created) hcurrent hphase with
      hreturned | ⟨old, hold, hphase⟩
    · exact hreturned
    · exact h.ended other old hlt hold hphase
  · intro _
    rw [hstops]
    exact h.stopped hrunning

/-- The fetcher of a fetch that has returned goes on or ends. -/
theorem Halting.setFetcher (h : Halting state)
    (hreturned : state.fetches[fetcher]? = some .returned) {current : Fetcher}
    {manager : FetchManager} (hstops : manager.stops = state.manager.stops)
    (hfetchers : manager.fetchers = state.manager.fetchers.set fetcher current) :
    Halting { state with manager } := by
  have hrunning : state.running = false := Bool.eq_false_iff.mpr fun hset =>
    h.fetching hset .returned (List.mem_of_getElem? hreturned) rfl
  refine h.of_manager hrunning hstops ?_ ?_
  · rw [hfetchers, List.length_set]
  · intro other after _ hafter hphase
    rw [hfetchers, List.getElem?_set] at hafter
    split at hafter
    · next heq =>
        subst heq
        exact Or.inl hreturned
    · exact Or.inr ⟨after, hafter, hphase⟩

/-- `start` goes on with new fetchers. -/
theorem Halting.createFetchers (h : Halting state) (hrunning : state.running = false) :
    Halting { state with manager := state.manager.createFetchers } := by
  unfold FetchManager.createFetchers
  split
  · exact h.of_manager hrunning rfl (Nat.le_refl _) fun other current _ hcurrent hphase =>
      Or.inr ⟨current, hcurrent, hphase⟩
  · refine h.of_manager hrunning rfl ?_ fun other current hlt hcurrent hphase => ?_
    · show _ ≤ (state.manager.fetchers ++ _).length
      rw [List.length_append]
      exact Nat.le_add_right _ _
    · have hcurrent : (state.manager.fetchers ++ _)[other]? = some current := hcurrent
      rw [List.getElem?_append_left hlt] at hcurrent
      exact Or.inr ⟨current, hcurrent, hphase⟩

/-- Looking for the next seek does not end the fetch. -/
theorem phase_seekOffsets (seekOffset : InsertionMap Int Int) (todo : List Int) :
    (seekOffsets seekOffset todo).2 ≠ .returned := by
  induction todo with
  | nil => nofun
  | cons partition todo ih =>
      rw [seekOffsets]
      split
      · exact ih
      · nofun

/-- Every event keeps what is known of the stop. -/
theorem Halting.step {event : SetOffsetsEvent} (h : Halting state)
    (hstep : state.step event = some next) : Halting next := by
  cases event with
  | refreshed fetcher =>
      simp only [SetOffsets.step] at hstep
      split at hstep
      · next nodeId hold hnode =>
          cases hstep
          exact h.set hold (by simp) (phase_seekOffsets _ _) _ _
      · cases hstep
  | committed fetcher =>
      simp only [SetOffsets.step] at hstep
      split at hstep
      · next partition offset todo hold =>
          cases hstep
          exact h.set hold (by simp) (phase_seekOffsets _ _) _ _
      · cases hstep
  | returns fetcher =>
      obtain ⟨hold, hemit⟩ := Option.ite_none_right_eq_some.mp hstep
      exact h.emitFetch (List.getElem?_eq_some_iff.mp hold).1 hemit
  | fails fetcher error =>
      simp only [SetOffsets.step] at hstep
      split at hstep
      · cases hstep
      · cases hstep
      · next phase hnot hold =>
          obtain ⟨-, hemit⟩ := Option.ite_none_right_eq_some.mp hstep
          exact h.emitFetch (List.getElem?_eq_some_iff.mp hold).1 hemit
  | heartbeat fetcher error =>
      obtain ⟨hreturned, hmap⟩ := Option.ite_none_right_eq_some.mp hstep
      obtain ⟨manager, hmanager, rfl⟩ := Option.map_eq_some_iff.mp hmap
      cases error with
      | none =>
          obtain ⟨current, -, -, rfl⟩ := FetchManager.fetched_cases hmanager
          exact h.setFetcher hreturned rfl rfl
      | some error =>
          obtain ⟨current, -, -, rfl⟩ := FetchManager.fails_cases hmanager
          obtain ⟨hfetchers, -, hstops, -⟩ := FetchManager.fail_frame
            (state.manager.setFetcher fetcher
              { current with isRunning := false, phase := .ended }) fetcher error
          exact h.setFetcher hreturned hstops hfetchers
  | nodes nodeIds =>
      cases hstep
      exact ⟨h.length, h.created, h.ended, h.first, h.fetching, h.isRunning, h.stopped, h.resolved⟩
  | allEnded =>
      obtain ⟨manager, hmanager, rfl⟩ := Option.map_eq_some_iff.mp hstep
      obtain ⟨-, hnext⟩ := Option.ite_none_right_eq_some.mp hmanager
      cases hnext
      refine ⟨h.length, h.created, h.ended, fun hrunning => ?_, h.fetching, h.isRunning, h.stopped,
        h.resolved⟩
      obtain ⟨hfirst, hstops, -⟩ := h.first hrunning
      exact ⟨hfirst, hstops, Or.inl rfl⟩
  | caught =>
      obtain ⟨manager, hmanager, rfl⟩ := Option.map_eq_some_iff.mp hstep
      simp only [FetchManager.step] at hmanager
      split at hmanager
      · next error hphase =>
          cases hmanager
          have hrunning := h.not_running (by rw [hphase]; simp) (by rw [hphase]; simp)
          refine h.of_manager hrunning rfl ?_ fun other current _ hcurrent hended => ?_
          · show _ ≤ (state.manager.fetchers.mapIdx _).length
            rw [List.length_mapIdx]
          · obtain ⟨old, hold, hsame⟩ := FetchManager.phase_clearRunning hcurrent
            exact Or.inr ⟨old, hold, hsame ▸ hended⟩
      · cases hmanager
  | internalStopped =>
      obtain ⟨manager, hmanager, rfl⟩ := Option.map_eq_some_iff.mp hstep
      simp only [FetchManager.step] at hmanager
      split at hmanager
      · next error awaited hphase =>
          have hrunning := h.not_running (by rw [hphase]; simp) (by rw [hphase]; simp)
          obtain ⟨-, hnext⟩ := Option.ite_none_right_eq_some.mp hmanager
          split at hnext
          · cases hnext
            exact h.createFetchers hrunning
          · cases hnext
            exact h.of_manager hrunning rfl (Nat.le_refl _) fun other current _ hcurrent hphase =>
              Or.inr ⟨current, hcurrent, hphase⟩
      · cases hmanager
  | resolves =>
      obtain ⟨⟨hrunning, -, hstops⟩, hnext⟩ := Option.ite_none_right_eq_some.mp hstep
      cases hnext
      refine ⟨h.length, h.created, h.ended, h.first, h.fetching, h.isRunning, h.stopped, ?_⟩
      intro _ phase hmem
      obtain ⟨fetcher, hphase⟩ := List.mem_iff_getElem?.mp hmem
      have hlt := (List.getElem?_eq_some_iff.mp hphase).1
      obtain ⟨call, hcall, hawaited⟩ := h.stopped hrunning
      rw [hcall, List.all_cons, List.all_nil, Bool.and_true] at hstops
      -- the stop awaits every fetcher, and an ended one has returned from its fetch
      have hended := List.all_eq_true.mp hstops fetcher (hawaited fetcher hlt)
      have hcurrent := List.getElem?_eq_getElem (Nat.lt_of_lt_of_le hlt h.created)
      rw [hcurrent] at hended
      exact Option.some.inj (hphase.symm.trans
        (h.ended fetcher _ hlt hcurrent (of_decide_eq_true hended)))

end KafkaJs.Admin.SetOffsets
