import KafkaJs.Consumer.FetchManagerStop

/-!
# One generation of fetchers after the other

As long as nobody calls `stop` from outside, `start` creates fetchers only when all earlier ones
have ended. `Waited` is the invariant: a fetcher that has not ended is one of the current ones, it
is running while `start` waits for it, and its `end` is waited for while `start` stops its fetchers.
-/

namespace KafkaJs.Consumer.FetchManager

/-- Every fetcher that has not ended is a current one, and `start` waits for it. -/
structure Waited (manager : FetchManager) : Prop where
  current : ∀ index fetcher, manager.fetchers[index]? = some fetcher → fetcher.phase ≠ .ended →
    manager.first ≤ index
  idle : manager.startPhase = .idle → ∀ fetcher ∈ manager.fetchers, fetcher.phase = .ended
  waiting : ∀ failure, manager.startPhase = .waiting failure →
    ∀ fetcher ∈ manager.fetchers, fetcher.phase ≠ .ended → fetcher.isRunning = true
  stopping : ∀ error awaited, manager.startPhase = .stopping error awaited →
    ∀ index fetcher, manager.fetchers[index]? = some fetcher → fetcher.phase ≠ .ended →
      index ∈ awaited

variable {manager next : FetchManager}

/-- A new manager is waited for. -/
theorem waited_create (nodeIds : List Int) : Waited (create nodeIds) := by
  refine ⟨?_, ?_, ?_, ?_⟩
  · intro _ _ hnone
    cases hnone
  · intro _ _ hmem
    cases hmem
  · intro _ _ _ hmem
    cases hmem
  · intro _ _ hphase
    cases hphase

/-- Where all fetchers have ended, any `first` will do. -/
theorem waited_of_ended (hended : ∀ fetcher ∈ manager.fetchers, fetcher.phase = .ended) :
    Waited manager := by
  refine ⟨?_, fun _ => hended, ?_, ?_⟩
  · exact fun index fetcher hfetcher hnot =>
      absurd (hended fetcher (List.mem_of_getElem? hfetcher)) hnot
  · exact fun _ _ fetcher hmem hnot => absurd (hended fetcher hmem) hnot
  · exact fun _ _ _ index fetcher hfetcher hnot =>
      absurd (hended fetcher (List.mem_of_getElem? hfetcher)) hnot

/-- The new fetchers are the current ones, and they are running. -/
theorem waited_createFetchers (hended : ∀ fetcher ∈ manager.fetchers, fetcher.phase = .ended) :
    Waited manager.createFetchers := by
  unfold createFetchers
  split
  · exact waited_of_ended hended
  · have hnew : ∀ fetcher ∈ manager.nodeIds.map fun _ =>
        manager.turn ⟨manager.nodeIds, true, .ended⟩, fetcher.isRunning = true := by
      intro fetcher hmem
      obtain ⟨_, -, rfl⟩ := List.mem_map.mp hmem
      exact turn_isRunning manager _
    refine ⟨?_, ?_, ?_, ?_⟩
    · intro index fetcher hfetcher hnot
      by_contra hbefore
      have hlt := Nat.lt_of_not_le hbefore
      rw [List.getElem?_append_left hlt] at hfetcher
      exact hnot (hended fetcher (List.mem_of_getElem? hfetcher))
    · intro hidle
      cases hidle
    · intro _ _ fetcher hmem hnot
      rcases List.mem_append.mp hmem with hold | hmem
      · exact absurd (hended fetcher hold) hnot
      · exact hnew fetcher hmem
    · intro _ _ hphase
      cases hphase

/-- A fetcher that has not ended goes on as it was, or ends. -/
theorem Waited.setFetcher (h : Waited manager) {index : Nat} {old fetcher : Fetcher}
    (hold : manager.fetchers[index]? = some old) (hphase : old.phase ≠ .ended)
    (hrunning : fetcher.phase ≠ .ended → fetcher.isRunning = old.isRunning) :
    Waited (manager.setFetcher index fetcher) := by
  have hlt := (List.getElem?_eq_some_iff.mp hold).1
  have hmem := List.mem_of_getElem? hold
  refine ⟨?_, ?_, ?_, ?_⟩
  · intro other state hstate hnot
    by_cases heq : index = other
    · subst heq
      exact h.current index old hold hphase
    · rw [FetchManager.setFetcher, List.getElem?_set_ne heq] at hstate
      exact h.current other state hstate hnot
  · intro hidle
    exact absurd (h.idle hidle old hmem) hphase
  · intro failure hwaiting state hstate hnot
    rcases List.mem_or_eq_of_mem_set hstate with hother | rfl
    · exact h.waiting failure hwaiting state hother hnot
    · rw [hrunning hnot]
      exact h.waiting failure hwaiting old hmem hphase
  · intro error awaited hstopping other state hstate hnot
    by_cases heq : index = other
    · subst heq
      exact h.stopping error awaited hstopping index old hold hphase
    · rw [FetchManager.setFetcher, List.getElem?_set_ne heq] at hstate
      exact h.stopping error awaited hstopping other state hstate hnot

/-- An error that `start` notices changes nothing about the fetchers. -/
theorem Waited.fail (h : Waited manager) (fetcher : Nat) (error : KafkaError) :
    Waited (manager.fail fetcher error) := by
  unfold FetchManager.fail
  split
  · next hwaiting =>
      split
      · refine ⟨h.current, ?_, fun _ _ => h.waiting none hwaiting, ?_⟩
        · intro hidle
          cases hidle
        · intro _ _ hstopping
          cases hstopping
      · exact h
  · exact h

/-- `stop` leaves the fetchers where they are. -/
theorem phase_clearRunning {index : Nat} {fetcher : Fetcher}
    (hfetcher : manager.clearRunning.fetchers[index]? = some fetcher) :
    ∃ old, manager.fetchers[index]? = some old ∧ fetcher.phase = old.phase := by
  rw [getElem?_clearRunning] at hfetcher
  obtain ⟨old, hold, rfl⟩ := Option.map_eq_some_iff.mp hfetcher
  refine ⟨old, hold, ?_⟩
  split <;> rfl

/-- `start` stops its fetchers: those that have not ended are the ones that are running. -/
theorem Waited.caught (h : Waited manager) {error : KafkaError}
    (hphase : manager.startPhase = .waiting (some error)) :
    Waited { manager.clearRunning with startPhase := .stopping error manager.running } := by
  refine ⟨?_, ?_, ?_, ?_⟩
  · intro index fetcher hfetcher hnot
    obtain ⟨old, hbefore, hsame⟩ := phase_clearRunning hfetcher
    exact h.current index old hbefore (hsame ▸ hnot)
  · intro hidle
    cases hidle
  · intro _ hwaiting
    cases hwaiting
  · intro _ _ hstopping index fetcher hfetcher hnot
    cases hstopping
    obtain ⟨old, hbefore, hsame⟩ := phase_clearRunning hfetcher
    have hunended : old.phase ≠ .ended := hsame ▸ hnot
    exact mem_running hbefore (h.current index old hbefore hunended)
      (h.waiting (some error) hphase old (List.mem_of_getElem? hbefore) hunended)

/-- When the fetchers that `start` waits for have ended, all have. -/
theorem Waited.ended_of_stopped (h : Waited manager) {error : KafkaError} {awaited : List Nat}
    (hphase : manager.startPhase = .stopping error awaited)
    (hended : manager.haveEnded awaited = true) :
    ∀ fetcher ∈ manager.fetchers, fetcher.phase = .ended := by
  intro fetcher hmem
  obtain ⟨index, hfetcher⟩ := List.mem_iff_getElem?.mp hmem
  by_contra hnot
  have hawaited := h.stopping error awaited hphase index fetcher hfetcher hnot
  have hdone := List.all_eq_true.mp hended index hawaited
  rw [hfetcher] at hdone
  exact hnot (of_decide_eq_true hdone)

/-- When the current fetchers have ended, all have. -/
theorem Waited.ended_of_all (h : Waited manager)
    (hended : (manager.fetchers.drop manager.first).all (fun fetcher => fetcher.phase = .ended)) :
    ∀ fetcher ∈ manager.fetchers, fetcher.phase = .ended := by
  intro fetcher hmem
  obtain ⟨index, hfetcher⟩ := List.mem_iff_getElem?.mp hmem
  by_contra hnot
  have hfirst := h.current index fetcher hfetcher hnot
  have hdrop : fetcher ∈ manager.fetchers.drop manager.first := by
    refine List.mem_of_getElem? (i := index - manager.first) ?_
    rw [List.getElem?_drop, Nat.add_sub_cancel' hfirst]
    exact hfetcher
  exact hnot (of_decide_eq_true (List.all_eq_true.mp hended fetcher hdrop))

/-! ## The events of one fetcher -/

/-- A fetch has returned: the fetcher pushes what it has, or goes on. -/
theorem fetched_cases {fetcher : Nat} {available : Bool}
    (hstep : manager.step (.fetched fetcher available) = some next) :
    ∃ state, manager.fetchers[fetcher]? = some state ∧ state.phase = .fetching ∧
      next = manager.setFetcher fetcher
        (if state.isRunning && available then { state with phase := .pushing }
          else manager.turn state) := by
  simp only [FetchManager.step] at hstep
  split at hstep
  · next state hstate =>
      obtain ⟨hphase, hnext⟩ := Option.ite_none_right_eq_some.mp hstep
      exact ⟨state, hstate, hphase, (Option.some.inj hnext).symm⟩
  · cases hstep

/-- A push has returned, and the fetcher goes on. -/
theorem pushed_cases {fetcher : Nat} (hstep : manager.step (.pushed fetcher) = some next) :
    ∃ state, manager.fetchers[fetcher]? = some state ∧ state.phase = .pushing ∧
      next = manager.setFetcher fetcher (manager.turn state) := by
  simp only [FetchManager.step] at hstep
  split at hstep
  · next state hstate =>
      obtain ⟨hphase, hnext⟩ := Option.ite_none_right_eq_some.mp hstep
      exact ⟨state, hstate, hphase, (Option.some.inj hnext).symm⟩
  · cases hstep

/-- A fetcher has failed: it has ended, and `start` may notice. -/
theorem fails_cases {fetcher : Nat} {error : KafkaError}
    (hstep : manager.step (.fails fetcher error) = some next) :
    ∃ state, manager.fetchers[fetcher]? = some state ∧ state.phase ≠ .ended ∧
      next = (manager.setFetcher fetcher
        { state with isRunning := false, phase := .ended }).fail fetcher error := by
  simp only [FetchManager.step] at hstep
  split at hstep
  · next state hstate =>
      obtain ⟨hmay, hnext⟩ := Option.ite_none_right_eq_some.mp hstep
      refine ⟨state, hstate, fun hended => ?_, (Option.some.inj hnext).symm⟩
      rw [Fetcher.mayFail, hended] at hmay
      cases hmay
  · cases hstep

/-- Only a `stop` from outside leaves a fetcher for which nobody waits. -/
theorem Waited.step {event : FetchManagerEvent} (h : Waited manager) (hstop : event ≠ .stop)
    (hstep : manager.step event = some next) : Waited next := by
  cases event with
  | nodes nodeIds =>
      cases hstep
      exact ⟨h.current, h.idle, h.waiting, h.stopping⟩
  | start =>
      obtain ⟨hidle, hnext⟩ := Option.ite_none_right_eq_some.mp hstep
      cases hnext
      exact waited_createFetchers (h.idle hidle)
  | fetched fetcher available =>
      obtain ⟨state, hstate, hphase, rfl⟩ := fetched_cases hstep
      refine h.setFetcher hstate (by rw [hphase]; exact nofun) fun _ => ?_
      split
      · rfl
      · exact turn_isRunning manager state
  | pushed fetcher =>
      obtain ⟨state, hstate, hphase, rfl⟩ := pushed_cases hstep
      exact h.setFetcher hstate (by rw [hphase]; exact nofun) fun _ =>
        turn_isRunning manager state
  | fails fetcher error =>
      obtain ⟨state, hstate, hphase, rfl⟩ := fails_cases hstep
      exact Waited.fail (h.setFetcher hstate hphase fun hnot => absurd rfl hnot) fetcher error
  | allEnded =>
      obtain ⟨⟨-, hended⟩, hnext⟩ := Option.ite_none_right_eq_some.mp hstep
      cases hnext
      exact waited_of_ended (h.ended_of_all hended)
  | caught =>
      simp only [FetchManager.step] at hstep
      split at hstep
      · next error hphase =>
          cases hstep
          exact h.caught hphase
      · cases hstep
  | internalStopped =>
      simp only [FetchManager.step] at hstep
      split at hstep
      · next error awaited hphase =>
          obtain ⟨hended, hnext⟩ := Option.ite_none_right_eq_some.mp hstep
          have hall := h.ended_of_stopped hphase hended
          split at hnext
          · cases hnext
            exact waited_createFetchers hall
          · cases hnext
            exact waited_of_ended hall
      · cases hstep
  | stop => exact absurd rfl hstop
  | stopResolved call =>
      simp only [FetchManager.step] at hstep
      split at hstep
      · obtain ⟨-, hnext⟩ := Option.ite_none_right_eq_some.mp hstep
        cases hnext
        exact ⟨h.current, h.idle, h.waiting, h.stopping⟩
      · cases hstep

/-! ## The fetchers that wait for the worker queue -/

/-- Which fetchers wait for the worker queue. -/
def pushing (manager : FetchManager) : List Bool :=
  manager.fetchers.map fun fetcher => decide (fetcher.phase = .pushing)

/-- A fetcher does not begin to wait for the worker queue before its fetch has returned. -/
theorem turn_phase (manager : FetchManager) (fetcher : Fetcher) :
    (manager.turn fetcher).phase ≠ .pushing := by
  unfold turn
  split
  · dsimp only
    split <;> nofun
  · nofun

/-- Replacing a fetcher decides whether that one pushes and leaves the others. -/
theorem pushing_setFetcher (manager : FetchManager) (index : Nat) (fetcher : Fetcher) :
    (manager.setFetcher index fetcher).pushing =
      manager.pushing.set index (decide (fetcher.phase = .pushing)) := by
  rw [pushing, FetchManager.setFetcher, List.map_set]
  rfl

/-- A fetcher that neither waited for the worker queue nor does so now. -/
theorem pushing_setFetcher_of_not {index : Nat} {old fetcher : Fetcher}
    (hold : manager.fetchers[index]? = some old) (holdPhase : old.phase ≠ .pushing)
    (hphase : fetcher.phase ≠ .pushing) :
    (manager.setFetcher index fetcher).pushing = manager.pushing := by
  rw [pushing_setFetcher, decide_eq_false hphase]
  refine List.ext_getElem? fun other => ?_
  rw [List.getElem?_set]
  split
  · next heq =>
      subst heq
      rw [pushing, List.getElem?_map, hold, List.length_map,
        if_pos (List.getElem?_eq_some_iff.mp hold).1, Option.map_some, decide_eq_false holdPhase]
  · rfl

/-- A failure leaves the fetchers that push. -/
theorem pushing_fail (manager : FetchManager) (fetcher : Nat) (error : KafkaError) :
    (manager.fail fetcher error).pushing = manager.pushing := by
  rw [pushing, (fail_frame manager fetcher error).1]
  rfl

/-- Clearing the running promise leaves the fetchers that push. -/
theorem pushing_clearRunning (manager : FetchManager) :
    manager.clearRunning.pushing = manager.pushing := by
  refine List.ext_getElem? fun index => ?_
  rw [pushing, pushing, List.getElem?_map, List.getElem?_map, getElem?_clearRunning,
    Option.map_map]
  congr 1
  funext fetcher
  show decide ((if _ then _ else _ : Fetcher).phase = _) = _
  split <;> rfl

/-- A failure keeps the nodes. -/
theorem fail_nodeIds (manager : FetchManager) (fetcher : Nat) (error : KafkaError) :
    (manager.fail fetcher error).nodeIds = manager.nodeIds := by
  unfold FetchManager.fail
  split
  · split <;> rfl
  · rfl

end KafkaJs.Consumer.FetchManager
