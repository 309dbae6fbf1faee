import KafkaJs.Consumer.FetchManager
import KafkaJs.Execution.Run

/-!
# Stopping the fetch manager

A call of `stop` waits for the fetchers whose flag it clears. It is final if these are all fetchers
that have not ended, and if `start` is not about to create new ones because the nodes have changed.
Otherwise it may resolve while a fetcher still pushes, and before `start` creates the next fetchers.

`final_of_orderly` says that stops are final in every run in which they come at such moments, and
`notFinal_rebalance` is a run in which `stop` comes while `start` itself stops its fetchers.
-/

namespace KafkaJs.Consumer.FetchManager

open Execution

/-- When a call of `stop` has resolved and `start` has not been called since, every fetcher that was
ever created has ended, and no fetcher has been created since. -/
def Final (manager : FetchManager) : Prop :=
  ∀ count, manager.stopped = some count → manager.fetchers.length = count ∧
    ∀ fetcher ∈ manager.fetchers, fetcher.isRunning = false ∧ fetcher.phase = .ended

/-- `start` is about to create new fetchers: the first error of its fetchers is a rebalance. -/
def rebalancing (manager : FetchManager) : Bool :=
  match manager.startPhase with
  | .waiting (some error) | .stopping error _ => error.name = .kafkaJSFetcherRebalanceError
  | .idle | .waiting none => false

/-- `stop` is called when every fetcher that has not ended is running and `start` is not about to
create new ones, and a rebalance is not the first error of the fetchers after `stop` was called. -/
def orderly (manager : FetchManager) : FetchManagerEvent → Bool
  | .stop =>
      (manager.fetchers.all fun fetcher => fetcher.phase = .ended || fetcher.isRunning) &&
        !manager.rebalancing
  | .fails fetcher error => !(manager.stopRequested && (manager.fail fetcher error).rebalancing)
  | _ => true

/-- What keeps `Final`. -/
structure Sound (manager : FetchManager) : Prop where
  /-- Neither a fetcher that has ended nor one before the current ones is running. -/
  quiet : ∀ index fetcher, manager.fetchers[index]? = some fetcher →
    fetcher.phase = .ended ∨ index < manager.first → fetcher.isRunning = false
  /-- No fetcher is running unless `start` waits for it. -/
  halted : (∀ failure, manager.startPhase ≠ .waiting failure) →
    ∀ fetcher ∈ manager.fetchers, fetcher.isRunning = false
  /-- After `stop` no fetchers are created. -/
  straight : manager.stopRequested = true → manager.rebalancing = false
  earlier : ∀ call ∈ manager.stops, call.starts ≤ manager.starts
  /-- A call of `stop` since the last `start` waits for all fetchers that have not ended. -/
  awaited : ∀ call ∈ manager.stops, call.starts = manager.starts → manager.stopRequested = true ∧
    ∀ index fetcher, manager.fetchers[index]? = some fetcher → fetcher.phase ≠ .ended →
      index ∈ call.awaited
  final : ∀ count, manager.stopped = some count → manager.stopRequested = true ∧
    manager.fetchers.length = count ∧ ∀ fetcher ∈ manager.fetchers, fetcher.phase = .ended

variable {manager next : FetchManager}

/-- A new fetch manager is sound. -/
theorem sound_create (nodeIds : List Int) : Sound (create nodeIds) := by
  refine ⟨?_, ?_, ?_, ?_, ?_, ?_⟩
  · intro _ _ hnone
    cases hnone
  · intro _ _ hmem
    cases hmem
  · exact nofun
  · intro _ hmem
    cases hmem
  · intro _ hmem
    cases hmem
  · exact nofun

/-! ## Fetchers -/

/-- A turn neither ends nor starts a fetcher. -/
theorem turn_isRunning (manager : FetchManager) (fetcher : Fetcher) :
    (manager.turn fetcher).isRunning = fetcher.isRunning := by
  unfold turn
  split <;> rfl

/-- The loop ends only after the flag was cleared. -/
theorem turn_ended {fetcher : Fetcher} (h : (manager.turn fetcher).phase = .ended) :
    fetcher.isRunning = false := by
  unfold turn at h
  split at h
  · dsimp only at h
    split at h <;> cases h
  · next hstopped => exact Bool.eq_false_iff.mpr hstopped

/-- A fetcher that has not ended goes on, without setting its flag. -/
theorem Sound.setFetcher (h : Sound manager) {index : Nat} {old fetcher : Fetcher}
    (hold : manager.fetchers[index]? = some old) (hphase : old.phase ≠ .ended)
    (hrunning : fetcher.isRunning = true → old.isRunning = true)
    (hended : fetcher.phase = .ended → fetcher.isRunning = false) :
    Sound (manager.setFetcher index fetcher) := by
  have hlt := (List.getElem?_eq_some_iff.mp hold).1
  have hcases : ∀ other state, (manager.setFetcher index fetcher).fetchers[other]? = some state →
      other = index ∧ state = fetcher ∨ other ≠ index ∧ manager.fetchers[other]? = some state := by
    intro other state hstate
    rw [FetchManager.setFetcher] at hstate
    by_cases heq : other = index
    · subst heq
      rw [List.getElem?_set_self hlt] at hstate
      exact Or.inl ⟨rfl, (Option.some.inj hstate).symm⟩
    · rw [List.getElem?_set_ne (Ne.symm heq)] at hstate
      exact Or.inr ⟨heq, hstate⟩
  refine ⟨?_, ?_, h.straight, h.earlier, ?_, ?_⟩
  · intro other state hstate hquiet
    rcases hcases other state hstate with ⟨rfl, rfl⟩ | ⟨-, hother⟩
    · rcases hquiet with hphase | hfirst
      · exact hended hphase
      · exact Bool.eq_false_iff.mpr fun hset =>
          Bool.eq_false_iff.mp (h.quiet _ _ hold (Or.inr hfirst)) (hrunning hset)
    · exact h.quiet other state hother hquiet
  · intro hstart state hmem
    rcases List.mem_or_eq_of_mem_set hmem with hmem | rfl
    · exact h.halted hstart state hmem
    · exact Bool.eq_false_iff.mpr fun hset =>
        Bool.eq_false_iff.mp (h.halted hstart old (List.mem_of_getElem? hold)) (hrunning hset)
  · intro call hcall hstarts
    obtain ⟨hrequested, hawaited⟩ := h.awaited call hcall hstarts
    refine ⟨hrequested, fun other state hstate hnot => ?_⟩
    rcases hcases other state hstate with ⟨rfl, rfl⟩ | ⟨-, hother⟩
    · exact hawaited _ _ hold hphase
    · exact hawaited other state hother hnot
  -- once stopping was called final every fetcher has ended, and this one has not
  · intro count hcount
    exact absurd ((h.final count hcount).2.2 old (List.mem_of_getElem? hold)) hphase

/-- A fetcher that has not ended takes its next turn. -/
theorem Sound.turn (h : Sound manager) {index : Nat} {old : Fetcher}
    (hold : manager.fetchers[index]? = some old) (hphase : old.phase ≠ .ended) :
    Sound (manager.setFetcher index (manager.turn old)) := by
  refine h.setFetcher hold hphase (fun hset => ?_) fun hended => ?_
  · rwa [turn_isRunning] at hset
  · rw [turn_isRunning]
    exact turn_ended hended

/-- A fetcher that has failed, for `start`. -/
theorem fail_frame (manager : FetchManager) (fetcher : Nat) (error : KafkaError) :
    (manager.fail fetcher error).fetchers = manager.fetchers ∧
    (manager.fail fetcher error).first = manager.first ∧
    (manager.fail fetcher error).stops = manager.stops ∧
    (manager.fail fetcher error).starts = manager.starts ∧
    (manager.fail fetcher error).stopRequested = manager.stopRequested ∧
    (manager.fail fetcher error).stopped = manager.stopped ∧
    ((∀ failure, (manager.fail fetcher error).startPhase ≠ .waiting failure) →
      ∀ failure, manager.startPhase ≠ .waiting failure) := by
  unfold fail
  split
  · split
    · exact ⟨rfl, rfl, rfl, rfl, rfl, rfl, fun hnot => absurd rfl (hnot _)⟩
    · exact ⟨rfl, rfl, rfl, rfl, rfl, rfl, id⟩
  · exact ⟨rfl, rfl, rfl, rfl, rfl, rfl, id⟩

/-- Whether `start` hears of the error does not depend on the state of the fetcher. -/
theorem fail_setFetcher (manager : FetchManager) (fetcher : Nat) (error : KafkaError)
    (state : Fetcher) : (manager.setFetcher fetcher state).fail fetcher error =
      (manager.fail fetcher error).setFetcher fetcher state := by
  obtain ⟨_, _, first, startPhase, _, _, _, _⟩ := manager
  cases startPhase with
  | idle | stopping => rfl
  | waiting failure =>
      cases failure with
      | none =>
          unfold fail FetchManager.setFetcher
          dsimp only
          split <;> rfl
      | some failure => rfl

/-- A fetcher that fails keeps the manager sound unless a stop meets a rebalance. -/
theorem Sound.fail (h : Sound manager) {fetcher : Nat} {error : KafkaError}
    (hok : (manager.stopRequested && (manager.fail fetcher error).rebalancing) = false) :
    Sound (manager.fail fetcher error) := by
  obtain ⟨hfetchers, hfirst, hstops, hstarts, hrequested, hstopped, hphase⟩ :=
    fail_frame manager fetcher error
  refine ⟨?_, ?_, ?_, ?_, ?_, ?_⟩
  · rw [hfetchers, hfirst]
    exact h.quiet
  · rw [hfetchers]
    exact fun hstart => h.halted (hphase hstart)
  · rw [hrequested]
    intro hset
    rw [hset, Bool.true_and] at hok
    exact hok
  · rw [hstops, hstarts]
    exact h.earlier
  · rw [hstops, hstarts, hrequested, hfetchers]
    exact h.awaited
  · rw [hstopped, hrequested, hfetchers]
    exact h.final

/-! ## `start` and `stop` -/

/-- `start` creates fetchers when none is running and no call of `stop` is to be final. -/
theorem Sound.createFetchers (h : Sound manager)
    (hstart : ∀ failure, manager.startPhase ≠ .waiting failure)
    (hcalls : ∀ call ∈ manager.stops, call.starts ≠ manager.starts)
    (hstopped : manager.stopped = none) : Sound manager.createFetchers := by
  unfold FetchManager.createFetchers
  split
  · refine ⟨h.quiet, fun _ => h.halted hstart, ?_, h.earlier, h.awaited, h.final⟩
    intro _
    rfl
  · refine ⟨?_, ?_, ?_, h.earlier, ?_, ?_⟩
    · intro index fetcher hfetcher hquiet
      by_cases hold : index < manager.fetchers.length
      · have hfetcher : (manager.fetchers ++ _)[index]? = some fetcher := hfetcher
        rw [List.getElem?_append_left hold] at hfetcher
        exact h.halted hstart fetcher (List.mem_of_getElem? hfetcher)
      · have hphase := hquiet.resolve_right hold
        rcases List.mem_append.mp (List.mem_of_getElem? hfetcher) with hmem | hmem
        · exact h.halted hstart fetcher hmem
        · obtain ⟨_, -, rfl⟩ := List.mem_map.mp hmem
          rw [turn_isRunning]
          exact turn_ended hphase
    · exact fun hnot => absurd rfl (hnot none)
    · intro _
      rfl
    · exact fun call hcall hstarts => absurd hstarts (hcalls call hcall)
    · intro count hcount
      rw [show manager.stopped = some count from hcount] at hstopped
      cases hstopped

/-- The fetchers after `stop` has cleared their flags. -/
theorem getElem?_clearRunning (manager : FetchManager) (index : Nat) :
    manager.clearRunning.fetchers[index]? = manager.fetchers[index]?.map fun fetcher =>
      if manager.first ≤ index then { fetcher with isRunning := false } else fetcher := by
  rw [clearRunning, List.getElem?_mapIdx]

/-- A fetcher after `stop`: not running, and where it was before. -/
theorem Sound.cleared (h : Sound manager) {index : Nat} {fetcher : Fetcher}
    (hfetcher : manager.clearRunning.fetchers[index]? = some fetcher) :
    fetcher.isRunning = false ∧
      ∃ old, manager.fetchers[index]? = some old ∧ fetcher.phase = old.phase := by
  rw [getElem?_clearRunning] at hfetcher
  obtain ⟨old, hold, rfl⟩ := Option.map_eq_some_iff.mp hfetcher
  split
  · exact ⟨rfl, old, hold, rfl⟩
  · next hfirst => exact ⟨h.quiet index old hold (Or.inr (Nat.lt_of_not_le hfirst)), old, hold, rfl⟩

/-- A fetcher of the last start that runs is one of those that are running. -/
theorem mem_running {index : Nat} {fetcher : Fetcher}
    (hfetcher : manager.fetchers[index]? = some fetcher) (hfirst : manager.first ≤ index)
    (hrunning : fetcher.isRunning = true) : index ∈ manager.running := by
  rw [running, List.mem_filter, List.mem_range, hfetcher]
  exact ⟨(List.getElem?_eq_some_iff.mp hfetcher).1, by simp [hfirst, hrunning]⟩

/-- `stop` of all fetchers, from inside or outside, with what becomes of the rest. -/
theorem Sound.clearRunning (h : Sound manager) {startPhase : StartPhase} {stops : List StopCall}
    {stopRequested : Bool}
    (hstraight : stopRequested = true →
      { manager.clearRunning with startPhase, stops, stopRequested }.rebalancing = false)
    (hrequested : manager.stopRequested = true → stopRequested = true)
    (hstops : ∀ call ∈ stops, call ∈ manager.stops ∨ stopRequested = true ∧
      call.starts = manager.starts ∧
        ∀ index fetcher, manager.fetchers[index]? = some fetcher → fetcher.phase ≠ .ended →
          index ∈ call.awaited) :
    Sound { manager.clearRunning with startPhase, stops, stopRequested } := by
  have hmem : ∀ fetcher ∈ manager.clearRunning.fetchers, fetcher.isRunning = false ∧
      ∃ index : Nat, ∃ old : Fetcher, manager.fetchers[index]? = some old ∧
        fetcher.phase = old.phase := by
    intro fetcher hmem
    obtain ⟨index, hfetcher⟩ := List.mem_iff_getElem?.mp hmem
    obtain ⟨hclear, old, hold⟩ := h.cleared hfetcher
    exact ⟨hclear, index, old, hold⟩
  refine ⟨?_, ?_, hstraight, ?_, ?_, ?_⟩
  · exact fun index fetcher hfetcher _ => (h.cleared hfetcher).1
  · exact fun _ fetcher hfetcher => (hmem fetcher hfetcher).1
  · intro call hcall
    rcases hstops call hcall with hold | ⟨-, hstarts, -⟩
    · exact h.earlier call hold
    · exact Nat.le_of_eq hstarts
  · intro call hcall hstarts
    rcases hstops call hcall with hold | ⟨hset, -, hawaited⟩
    · obtain ⟨hset, hawaited⟩ := h.awaited call hold hstarts
      refine ⟨hrequested hset, fun index fetcher hfetcher hnot => ?_⟩
      obtain ⟨-, old, hold, hphase⟩ := h.cleared hfetcher
      exact hawaited index old hold (hphase ▸ hnot)
    · refine ⟨hset, fun index fetcher hfetcher hnot => ?_⟩
      obtain ⟨-, old, hold, hphase⟩ := h.cleared hfetcher
      exact hawaited index old hold (hphase ▸ hnot)
  · intro count hcount
    obtain ⟨hset, hlength, hended⟩ := h.final count hcount
    refine ⟨hrequested hset, ?_, fun fetcher hfetcher => ?_⟩
    · show (manager.fetchers.mapIdx _).length = count
      rw [List.length_mapIdx]
      exact hlength
    · obtain ⟨-, index, old, hold, hphase⟩ := hmem fetcher hfetcher
      rw [hphase]
      exact hended old (List.mem_of_getElem? hold)

/-- A start keeps the manager sound. -/
theorem Sound.start (h : Sound manager) (hidle : manager.startPhase = .idle) :
    Sound { manager with
      starts := manager.starts + 1, stopRequested := false, stopped := none }.createFetchers := by
  have hlater : ∀ call ∈ manager.stops, call.starts ≠ manager.starts + 1 := by
    intro call hcall
    have hle := h.earlier call hcall
    omega
  refine Sound.createFetchers ⟨h.quiet, h.halted, nofun, ?_, ?_, nofun⟩ ?_ hlater rfl
  · exact fun call hcall => Nat.le_succ_of_le (h.earlier call hcall)
  · exact fun call hcall hstarts => absurd hstarts (hlater call hcall)
  · intro failure hwaiting
    rw [show manager.startPhase = _ from hwaiting] at hidle
    cases hidle

/-- `stop` from outside, when every fetcher that has not ended is running. -/
theorem Sound.stop (h : Sound manager)
    (hrunning : ∀ fetcher ∈ manager.fetchers, fetcher.phase = .ended ∨ fetcher.isRunning = true)
    (hstraight : manager.rebalancing = false) :
    Sound { manager.clearRunning with
      stops := manager.stops ++ [⟨manager.running, manager.starts⟩], stopRequested := true } := by
  refine h.clearRunning (fun _ => hstraight) (fun _ => rfl) ?_
  intro call hcall
  rcases List.mem_append.mp hcall with hold | hnew
  · exact Or.inl hold
  · cases List.mem_singleton.mp hnew
    refine Or.inr ⟨rfl, rfl, fun index fetcher hfetcher hnot => ?_⟩
    have hset := (hrunning fetcher (List.mem_of_getElem? hfetcher)).resolve_left hnot
    -- fetchers before the current ones are not running
    refine mem_running hfetcher ?_ hset
    by_contra hfirst
    have hquiet := h.quiet index fetcher hfetcher (Or.inr (Nat.lt_of_not_le hfirst))
    rw [hset] at hquiet
    cases hquiet

/-- `stop` resolves when the fetchers that it waits for have ended. -/
theorem Sound.stopResolved (h : Sound manager) {index : Nat} {call : StopCall}
    (hcall : manager.stops[index]? = some call) (hended : manager.haveEnded call.awaited = true) :
    Sound { manager with
      stops := manager.stops.eraseIdx index
      stopped :=
        if call.starts = manager.starts then some manager.fetchers.length else manager.stopped } := by
  refine ⟨h.quiet, h.halted, h.straight, ?_, ?_, ?_⟩
  · exact fun other hother => h.earlier other (List.mem_of_mem_eraseIdx hother)
  · exact fun other hother => h.awaited other (List.mem_of_mem_eraseIdx hother)
  · intro count hcount
    dsimp only at hcount
    split at hcount
    · next hstarts =>
        obtain ⟨hrequested, hawaited⟩ := h.awaited call (List.mem_of_getElem? hcall) hstarts
        refine ⟨hrequested, Option.some.inj hcount, fun fetcher hmem => ?_⟩
        by_contra hnot
        obtain ⟨place, hfetcher⟩ := List.mem_iff_getElem?.mp hmem
        have hplace := List.all_eq_true.mp hended place (hawaited place fetcher hfetcher hnot)
        rw [hfetcher] at hplace
        exact hnot (of_decide_eq_true hplace)
    · exact h.final count hcount

/-- All current fetchers have ended. -/
theorem Sound.allEnded (h : Sound manager)
    (hended : (manager.fetchers.drop manager.first).all (fun fetcher => fetcher.phase = .ended)) :
    Sound { manager with startPhase := .idle } := by
  refine ⟨h.quiet, fun _ fetcher hmem => ?_, fun _ => rfl, h.earlier, h.awaited, h.final⟩
  obtain ⟨index, hfetcher⟩ := List.mem_iff_getElem?.mp hmem
  refine h.quiet index fetcher hfetcher ?_
  by_cases hfirst : index < manager.first
  · exact Or.inr hfirst
  · have hdrop : fetcher ∈ manager.fetchers.drop manager.first := by
      refine List.mem_of_getElem? (i := index - manager.first) ?_
      rw [List.getElem?_drop, Nat.add_sub_cancel' (Nat.le_of_not_lt hfirst)]
      exact hfetcher
    exact Or.inl (of_decide_eq_true (List.all_eq_true.mp hended fetcher hdrop))

/-- The inner `stop` is over: `start` throws, or creates new fetchers. -/
theorem Sound.internalStopped (h : Sound manager) {error : KafkaError} {awaited : List Nat}
    (hphase : manager.startPhase = .stopping error awaited) :
    Sound (if error.name = .kafkaJSFetcherRebalanceError then manager.createFetchers
      else { manager with startPhase := .idle }) := by
  have hnot : ∀ failure, manager.startPhase ≠ .waiting failure := by
    intro failure hwaiting
    rw [hphase] at hwaiting
    cases hwaiting
  split
  · next hrebalance =>
      -- a call of `stop` since the last `start` would exclude the rebalance
      have hrequested : manager.stopRequested = false := by
        refine Bool.eq_false_iff.mpr fun hset => ?_
        have hstraight := h.straight hset
        rw [rebalancing, hphase] at hstraight
        exact of_decide_eq_false hstraight hrebalance
      refine h.createFetchers hnot ?_ ?_
      · intro call hcall hstarts
        rw [(h.awaited call hcall hstarts).1] at hrequested
        cases hrequested
      · refine Option.eq_none_iff_forall_not_mem.mpr fun count hcount => ?_
        rw [(h.final count hcount).1] at hrequested
        cases hrequested
  · exact ⟨h.quiet, fun _ => h.halted hnot, fun _ => rfl, h.earlier, h.awaited, h.final⟩

/-- Every orderly event keeps the manager sound. -/
theorem Sound.step {event : FetchManagerEvent} (h : Sound manager)
    (hok : manager.orderly event = true) (hstep : manager.step event = some next) :
    Sound next := by
  cases event with
  | nodes nodeIds =>
      cases hstep
      exact ⟨h.quiet, h.halted, h.straight, h.earlier, h.awaited, h.final⟩
  | start =>
      obtain ⟨hidle, hnext⟩ := Option.ite_none_right_eq_some.mp hstep
      cases hnext
      exact h.start hidle
  | fetched fetcher available =>
      rw [FetchManager.step] at hstep
      split at hstep
      · next state hstate =>
          obtain ⟨hphase, hnext⟩ := Option.ite_none_right_eq_some.mp hstep
          cases hnext
          have hnot : state.phase ≠ .ended := by
            rw [hphase]
            exact nofun
          split
          · exact h.setFetcher hstate hnot id nofun
          · exact h.turn hstate hnot
      · cases hstep
  | pushed fetcher =>
      rw [FetchManager.step] at hstep
      split at hstep
      · next state hstate =>
          obtain ⟨hphase, hnext⟩ := Option.ite_none_right_eq_some.mp hstep
          cases hnext
          have hnot : state.phase ≠ .ended := by
            rw [hphase]
            exact nofun
          exact h.turn hstate hnot
      · cases hstep
  | fails fetcher error =>
      rw [FetchManager.step] at hstep
      split at hstep
      · next state hstate =>
          obtain ⟨hmay, hnext⟩ := Option.ite_none_right_eq_some.mp hstep
          cases hnext
          have hnot : state.phase ≠ .ended := by
            intro hended
            rw [Fetcher.mayFail, hended] at hmay
            cases hmay
          -- the orderly event says so: no failure asks for a rebalance once a stop is requested
          have hfail : (manager.stopRequested && (manager.fail fetcher error).rebalancing) = false :=
            (Bool.not_eq_true' _).mp hok
          rw [fail_setFetcher]
          refine @Sound.setFetcher _ (h.fail hfail) _ state _ ?_ hnot
            (fun hset => absurd hset Bool.false_ne_true) fun _ => rfl
          rw [(fail_frame manager fetcher error).1]
          exact hstate
      · cases hstep
  | allEnded =>
      obtain ⟨⟨-, hended⟩, hnext⟩ := Option.ite_none_right_eq_some.mp hstep
      cases hnext
      exact h.allEnded hended
  | caught =>
      rw [FetchManager.step] at hstep
      split at hstep
      · next error hphase =>
          cases hstep
          refine h.clearRunning (fun hset => ?_) id fun call hcall => Or.inl hcall
          have hstraight := h.straight hset
          rw [rebalancing, hphase] at hstraight
          exact hstraight
      · cases hstep
  | internalStopped =>
      rw [FetchManager.step] at hstep
      split at hstep
      · next error awaited hphase =>
          obtain ⟨-, hnext⟩ := Option.ite_none_right_eq_some.mp hstep
          rw [← apply_ite some] at hnext
          cases hnext
          exact h.internalStopped hphase
      · cases hstep
  | stop =>
      cases hstep
      obtain ⟨hrunning, hstraight⟩ := (Bool.and_eq_true _ _).mp hok
      refine h.stop (fun fetcher hmem => ?_) ?_
      · simpa using List.all_eq_true.mp hrunning fetcher hmem
      · simpa using hstraight
  | stopResolved call =>
      rw [FetchManager.step] at hstep
      split at hstep
      · next stopCall hcall =>
          obtain ⟨hended, hnext⟩ := Option.ite_none_right_eq_some.mp hstep
          cases hnext
          exact h.stopResolved hcall hended
      · cases hstep

/-- In every run in which `stop` is called while every fetcher that has not ended is running, and in
which no rebalance of the fetchers is under way then or comes first afterwards, stopping is final.
-/
theorem final_of_orderly {nodeIds : List Int} {events : List FetchManagerEvent}
    (horderly : Meets step (fun manager event => manager.orderly event = true) (create nodeIds)
      events)
    (hrun : run step (create nodeIds) events = some manager) : Final manager := by
  have hsound : Sound manager := invariant_of_meets (fun _ _ _ h hok hstep => h.step hok hstep)
    (sound_create nodeIds) horderly hrun
  intro count hcount
  obtain ⟨-, hlength, hended⟩ := hsound.final count hcount
  refine ⟨hlength, fun fetcher hmem => ⟨?_, hended fetcher hmem⟩⟩
  obtain ⟨index, hfetcher⟩ := List.mem_iff_getElem?.mp hmem
  exact hsound.quiet index fetcher hfetcher (Or.inl (hended fetcher hmem))

/-- A fetcher of two pushes when `stop` is called, and the other one fails afterwards. -/
def orderlyStop : List FetchManagerEvent :=
  [.start, .fetched 1 true, .stop, .fails 0 { name := .kafkaJSConnectionError, message := "" },
    .caught, .pushed 1, .internalStopped, .stopResolved 0]

/-- A stop of running fetchers is final. -/
theorem final_orderlyStop : ∃ manager, run step (create [0, 1]) orderlyStop = some manager ∧
    manager.stopped = some 2 ∧ Final manager := by
  have hstopped : (run step (create [0, 1]) orderlyStop).map FetchManager.stopped =
      some (some 2) := by decide
  obtain ⟨manager, hrun, hstopped⟩ := Option.map_eq_some_iff.mp hstopped
  exact ⟨manager, hrun, hstopped, final_of_orderly (by decide) hrun⟩

/-- A third node appears while the second fetcher pushes, and the first one fails. `start` stops the
second fetcher, so that `stop` from outside finds its flag cleared and resolves at once, while the
batches are still being handled; when they are, `start` creates three new fetchers. -/
def rebalanceStop : List FetchManagerEvent :=
  [.start, .fetched 1 true, .nodes [0, 1, 2], .fetched 0 false, .fails 0 fetcherRebalanceError,
    .caught, .stop, .stopResolved 0]

/-- A stop during the internal stop of a rebalance leaves new fetchers running. -/
theorem notFinal_rebalance : ∃ manager later,
    run step (create [0, 1]) rebalanceStop = some manager ∧ ¬ Final manager ∧
    run step manager [.pushed 1, .internalStopped] = some later ∧ ¬ Final later ∧
    later.fetchers.length = 5 := by
  refine ⟨_, _, rfl, ?_, rfl, ?_, rfl⟩
  · intro hfinal
    obtain ⟨-, hended⟩ := hfinal 2 rfl
    exact nomatch (hended ⟨[0, 1], false, .pushing⟩ (by decide)).2
  · intro hfinal
    obtain ⟨hlength, -⟩ := hfinal 2 rfl
    cases hlength

end KafkaJs.Consumer.FetchManager
