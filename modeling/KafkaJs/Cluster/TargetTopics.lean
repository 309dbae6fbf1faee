import KafkaJs.Utils.LockSafety
import Mathlib.Data.Finset.Card
import Mathlib.Data.Finset.Dedup
import Mathlib.Data.List.Induction

/-!
# The target topics of a cluster

`addMultipleTargetTopics` of `cluster/index.js` and `deleteTopics` of `admin/index.js`, which both
change `targetTopics`. An add takes the lock, keeps a snapshot, registers its topics and refreshes
the metadata; if that fails because of a topic, it puts the snapshot back. A deletion takes its
topics out without the lock. Refreshes share a promise: one that is asked for while another is under
way has the outcome of that one. `log` records, the newest first, whose topics were registered and
taken out.

`losesNoUpdate_iff` says that no update gets lost exactly if no topic of the snapshot has been taken
out when an add fails.
-/

namespace KafkaJs.Cluster

open Execution Utils

/-- Where a call of `addMultipleTargetTopics` is: it waits for the lock, has got it and goes on in a
later turn, waits for a refresh of the metadata, or is done. -/
inductive AddPhase where
  | acquiring
  | acquired
  | refreshing (previousTopics : Finset String) (refresh : Nat)
  | resolved
  | rejected (error : KafkaError)
  deriving DecidableEq

/-- A call of `addMultipleTargetTopics`. -/
structure Add where
  topics : List String
  phase : AddPhase
  deriving DecidableEq

/-- Where a call of `deleteTopics` is: in one of the calls that an attempt awaits, in the wait for
another attempt, or done. -/
inductive DeletePhase where
  | refreshing (retryCount refresh : Nat)
  | findingController (retryCount : Nat)
  | deleting (retryCount : Nat)
  | refreshingAgain (retryCount refresh : Nat)
  | waiting (retryCount : Nat)
  | resolved
  | rejected (error : KafkaError)
  deriving DecidableEq

/-- A call of `deleteTopics`. -/
structure Deletion where
  topics : List String
  phase : DeletePhase
  deriving DecidableEq

/-- The topics of an add are registered, or those of a deletion are taken out. -/
inductive Mark where
  | added (call : Nat) (topics : List String)
  | removed (deletion : Nat) (topics : List String)
  deriving DecidableEq

/-- What concerns the target topics. The calls are numbered in the order in which they were made,
and so are the refreshes; `shared` is the one that is under way. -/
structure TargetTopics where
  targetTopics : Finset String := ∅
  mutatingTargetTopics : Lock Nat := .free
  shared : Option Nat := none
  refreshes : List (Option (Except KafkaError Unit)) := []
  adds : List Add := []
  deletions : List Deletion := []
  log : List Mark := []

namespace TargetTopics

/-- The types of error that make an add take its topics back: `INVALID_TOPIC_EXCEPTION`,
`UNKNOWN_TOPIC_OR_PARTITION` and `TOPIC_AUTHORIZATION_FAILED`. -/
def rollsBack (error : KafkaError) : Bool :=
  error.code = some 17 ∨ error.code = some 3 ∨ error.code = some 29

/-- A call of `addMultipleTargetTopics` is in another phase. -/
def setPhase (call : Nat) (phase : AddPhase) (state : TargetTopics) : TargetTopics :=
  { state with adds := state.adds.modify call fun add => { add with phase } }

/-- `addMultipleTargetTopics` up to the lock. -/
def addMultipleTargetTopics (topics : List String) (state : TargetTopics) : TargetTopics :=
  let (lock, atOnce) := state.mutatingTargetTopics.acquire state.adds.length
  { state with
    mutatingTargetTopics := lock
    adds := state.adds ++ [⟨topics, if atOnce then .acquired else .acquiring⟩] }

/-- The error of an add that does not get the lock in time. -/
def lockTimeoutError (state : TargetTopics) : KafkaError :=
  { name := .kafkaJSLockTimeout
    message := Lock.timeoutErrorMessage (some "updating target topics")
      state.mutatingTargetTopics.waiting.length
    retriable := some false }

/-- The `finally` of an add: the lock goes to the first waiter. -/
def finish (call : Nat) (phase : AddPhase) (state : TargetTopics) : TargetTopics :=
  let done := { state.setPhase call phase with
    mutatingTargetTopics := state.mutatingTargetTopics.release.1 }
  match state.mutatingTargetTopics.release.2 with
  | some next => done.setPhase next .acquired
  | none => done

/-- The loop of an add over its topics. -/
def addTopics (call : Nat) (topics : List String) (state : TargetTopics) : TargetTopics :=
  { state with
    targetTopics := state.targetTopics ∪ topics.toFinset
    log := .added call topics :: state.log }

/-- The refresh that `refreshMetadata` waits for: the one that is under way, or a new one. -/
def sharedRefresh (state : TargetTopics) : Nat := state.shared.getD state.refreshes.length

/-- `refreshMetadata` up to its wait. -/
def refreshMetadata (state : TargetTopics) : TargetTopics :=
  match state.shared with
  | some _ => state
  | none =>
      { state with
        shared := some state.refreshes.length
        refreshes := state.refreshes ++ [none] }

/-- The outcome of a refresh, if it has one. -/
def outcome (refresh : Nat) (state : TargetTopics) : Option (Except KafkaError Unit) :=
  state.refreshes[refresh]?.join

/-- An add that has the lock registers its topics and refreshes the metadata if it has to. -/
def register (call : Nat) (topics : List String) (metadataLoaded : Bool) (state : TargetTopics) :
    TargetTopics :=
  let added := state.addTopics call topics
  let hasChanged :=
    state.targetTopics.card ≠ added.targetTopics.card ∨ metadataLoaded = false
  if hasChanged then
    added.refreshMetadata.setPhase call (.refreshing state.targetTopics added.sharedRefresh)
  else added.finish call .resolved

/-- The refresh of an add succeeds or fails. -/
def refreshed (call : Nat) (previousTopics : Finset String) (result : Except KafkaError Unit)
    (state : TargetTopics) : TargetTopics :=
  match result with
  | .ok () => state.finish call .resolved
  | .error error =>
      let rolled :=
        if rollsBack error then { state with targetTopics := previousTopics } else state
      rolled.finish call (.rejected error)

/-- A call of `deleteTopics` is in another phase. -/
def setDeletePhase (deletion : Nat) (phase : DeletePhase) (state : TargetTopics) : TargetTopics :=
  { state with deletions := state.deletions.modify deletion fun call => { call with phase } }

/-- The handler of an attempt of `deleteTopics` and the retrier around it: the types
`NOT_CONTROLLER` and `UNKNOWN_TOPIC_OR_PARTITION` are thrown, everything else is passed to `bail`.
-/
def deleteFailed (retries retryCount : Nat) (error : KafkaError) : DeletePhase :=
  if (error.code = some 41 ∨ error.code = some 3) ∧ isErrorRetriable error ∧ retryCount < retries then
    .waiting (retryCount + 1)
  else .rejected error

/-- An attempt of `deleteTopics` goes on after a refresh. -/
def deleteRefreshed (retries deletion : Nat) (phase : DeletePhase) (state : TargetTopics) :
    Option TargetTopics :=
  match phase with
  | .refreshing retryCount refresh =>
      (state.outcome refresh).map fun
        | .ok () => state.setDeletePhase deletion (.findingController retryCount)
        | .error error => state.setDeletePhase deletion (deleteFailed retries retryCount error)
  | .refreshingAgain retryCount refresh =>
      (state.outcome refresh).map fun
        | .ok () => state.setDeletePhase deletion .resolved
        | .error error => state.setDeletePhase deletion (deleteFailed retries retryCount error)
  | _ => none

/-- The loop of a deletion over its topics. -/
def removeTopics (deletion : Nat) (topics : List String) (state : TargetTopics) : TargetTopics :=
  { state with
    targetTopics := state.targetTopics \ topics.toFinset
    log := .removed deletion topics :: state.log }

/-- An attempt of `deleteTopics` goes on after `findControllerBroker` or the request to the broker.
-/
def deleteAnswered (retries deletion : Nat) (topics : List String) (phase : DeletePhase)
    (result : Except KafkaError Unit) (state : TargetTopics) : Option TargetTopics :=
  match phase, result with
  | .findingController retryCount, .ok () =>
      some (state.setDeletePhase deletion (.deleting retryCount))
  | .deleting retryCount, .ok () =>
      let removed := state.removeTopics deletion topics
      some (removed.refreshMetadata.setDeletePhase deletion
        (.refreshingAgain retryCount removed.sharedRefresh))
  | .findingController retryCount, .error error | .deleting retryCount, .error error =>
      some (state.setDeletePhase deletion (deleteFailed retries retryCount error))
  | _, _ => none

/-- What happens: a call is made, the timer of a waiter fires, a refresh is asked for by another
operation, the refresh that is under way is settled, or a call goes on. -/
inductive Event where
  | addMultipleTargetTopics (topics : List String)
  | lockTimeout (call : Nat)
  | register (call : Nat) (metadataLoaded : Bool)
  | refreshed (call : Nat)
  | deleteTopics (topics : List String)
  | deleteRefreshed (deletion : Nat)
  | deleteAnswered (deletion : Nat) (result : Except KafkaError Unit)
  | retryTimer (deletion : Nat)
  | refreshMetadata
  | settleRefresh (result : Except KafkaError Unit)

/-- One event. -/
def step (retries : Nat) (state : TargetTopics) : Event → Option TargetTopics
  | .addMultipleTargetTopics topics => some (state.addMultipleTargetTopics topics)
  | .lockTimeout call =>
      match state.adds[call]? with
      | some ⟨_, .acquiring⟩ =>
          some { state.setPhase call (.rejected state.lockTimeoutError) with
            mutatingTargetTopics := state.mutatingTargetTopics.expire call }
      | _ => none
  | .register call metadataLoaded =>
      match state.adds[call]? with
      | some ⟨topics, .acquired⟩ => some (state.register call topics metadataLoaded)
      | _ => none
  | .refreshed call =>
      match state.adds[call]? with
      | some ⟨_, .refreshing previousTopics refresh⟩ =>
          (state.outcome refresh).map fun result => state.refreshed call previousTopics result
      | _ => none
  | .deleteTopics topics =>
      -- the refresh is shared with all callers that wait for one
      some { state.refreshMetadata with
        deletions := state.deletions ++ [⟨topics, .refreshing 0 state.sharedRefresh⟩] }
  | .deleteRefreshed deletion =>
      match state.deletions[deletion]? with
      | some ⟨_, phase⟩ => state.deleteRefreshed retries deletion phase
      | none => none
  | .deleteAnswered deletion result =>
      match state.deletions[deletion]? with
      | some ⟨topics, phase⟩ => state.deleteAnswered retries deletion topics phase result
      | none => none
  | .retryTimer deletion =>
      match state.deletions[deletion]? with
      | some ⟨_, .waiting retryCount⟩ =>
          some (state.refreshMetadata.setDeletePhase deletion
            (.refreshing retryCount state.sharedRefresh))
      | _ => none
  | .refreshMetadata => some state.refreshMetadata
  | .settleRefresh result =>
      match state.shared with
      | some refresh =>
          some { state with
            shared := none
            refreshes := state.refreshes.set refresh (some result) }
      | none => none

/-! ## The property -/

/-- The add has registered the topic, and no deletion has taken it out since. -/
def Present (call : Nat) (topic : String) : List Mark → Prop
  | [] => False
  | .added other topics :: log => (other = call ∧ topic ∈ topics) ∨ Present call topic log
  | .removed _ topics :: log => topic ∉ topics ∧ Present call topic log

/-- The deletion has taken the topic out, and no add has registered it since. -/
def Gone (deletion : Nat) (topic : String) : List Mark → Prop
  | [] => False
  | .removed other topics :: log => (other = deletion ∧ topic ∈ topics) ∨ Gone deletion topic log
  | .added _ topics :: log => topic ∉ topics ∧ Gone deletion topic log

/-- A topic of a successful add is a target topic until a deletion takes it out. -/
def KeepsAdded (state : TargetTopics) : Prop :=
  ∀ call add, state.adds[call]? = some add → add.phase = .resolved →
    ∀ topic ∈ add.topics, Present call topic state.log → topic ∈ state.targetTopics

/-- A topic that a completed deletion has taken out is not a target topic until an add registers it
again. -/
def KeepsRemoved (state : TargetTopics) : Prop :=
  ∀ deletion call, state.deletions[deletion]? = some call → call.phase = .resolved →
    ∀ topic, Gone deletion topic state.log → topic ∉ state.targetTopics

/-- The add goes on after a refresh that has failed because of a topic. -/
def FailsWith (state : TargetTopics) (event : Event) (topics : List String)
    (previousTopics : Finset String) : Prop :=
  ∃ call refresh error, event = .refreshed call ∧
    state.adds[call]? = some ⟨topics, .refreshing previousTopics refresh⟩ ∧
      state.outcome refresh = some (.error error) ∧ rollsBack error = true

/-- An add that fails because of a topic takes out exactly the topics it has added itself. -/
def TakesBack (state : TargetTopics) (event : Event) (next : TargetTopics) : Prop :=
  ∀ topics previousTopics, FailsWith state event topics previousTopics →
    next.targetTopics = state.targetTopics \ (topics.toFinset \ previousTopics)

/-- No update is lost in any state to which the events lead. -/
def LosesNoUpdate (retries : Nat) (events : List Event) : Prop :=
  ∀ before state, before <+: events → run (step retries) {} before = some state →
    KeepsAdded state ∧ KeepsRemoved state ∧
      ∀ event next, before ++ [event] <+: events → step retries state event = some next →
        TakesBack state event next

/-- When an add fails because of a topic, no topic of its snapshot has been taken out. -/
def Intact (state : TargetTopics) (event : Event) : Prop :=
  ∀ topics previousTopics, FailsWith state event topics previousTopics →
    previousTopics ⊆ state.targetTopics

/-! ## The calls -/

/-- The add has the lock. -/
def AddPhase.holds : AddPhase → Bool
  | .acquired | .refreshing _ _ => true
  | .acquiring | .resolved | .rejected _ => false

/-- The call has the lock. -/
def Holds (state : TargetTopics) (call : Nat) : Prop :=
  ∃ add, state.adds[call]? = some add ∧ AddPhase.holds add.phase = true

/-- The call waits for the lock. -/
def Waits (state : TargetTopics) (call : Nat) : Prop :=
  ∃ add, state.adds[call]? = some add ∧ add.phase = .acquiring

variable {state next : TargetTopics} {call other : Nat} {phase old : AddPhase} {add : Add}
  {topics : List String}

/-- The phases after one of them was set. -/
theorem getElem?_setPhase (hold : state.adds[call]? = some ⟨topics, old⟩) :
    (state.setPhase call phase).adds[other]? =
      if other = call then some ⟨topics, phase⟩ else state.adds[other]? := by
  show (state.adds.modify call fun add => { add with phase })[other]? = _
  rw [List.getElem?_modify]
  split
  · next heq =>
      subst heq
      rw [hold, if_pos rfl]
      rfl
  · next hne =>
      rw [if_neg (Ne.symm hne)]
      simp

/-- Who holds the lock after a phase was set. -/
theorem holds_setPhase (hold : state.adds[call]? = some ⟨topics, old⟩) :
    (state.setPhase call phase).Holds other ↔
      if other = call then AddPhase.holds phase = true else state.Holds other := by
  rw [Holds, getElem?_setPhase hold]
  split
  · simp
  · exact Iff.rfl

/-- Who waits for the lock after a phase was set. -/
theorem waits_setPhase (hold : state.adds[call]? = some ⟨topics, old⟩) :
    (state.setPhase call phase).Waits other ↔
      if other = call then phase = .acquiring else state.Waits other := by
  rw [Waits, getElem?_setPhase hold]
  split
  · simp
  · exact Iff.rfl

/-- A call that holds the lock does not wait for it. -/
theorem not_waits_of_holds (hholds : state.Holds call) : ¬ state.Waits call := by
  intro ⟨add, hadd, hphase⟩
  obtain ⟨same, hsame, hholds⟩ := hholds
  rw [hadd, Option.some_inj] at hsame
  rw [← hsame, hphase] at hholds
  cases hholds

/-- The calls after one is done: it is in its last phase, the next one has the lock, and the others
are as they were. -/
theorem adds_finish (hold : state.adds[call]? = some ⟨topics, old⟩)
    (hadd : (state.finish call phase).adds[other]? = some add) :
    (other = call ∧ add = ⟨topics, phase⟩) ∨ add.phase = .acquired ∨
      (other ≠ call ∧ state.adds[other]? = some add) := by
  have hdone : (state.setPhase call phase).adds[other]? = some add →
      (other = call ∧ add = ⟨topics, phase⟩) ∨ add.phase = .acquired ∨
        (other ≠ call ∧ state.adds[other]? = some add) := by
    intro hadd
    rw [getElem?_setPhase hold] at hadd
    split at hadd
    · next heq => exact Or.inl ⟨heq, (Option.some.inj hadd).symm⟩
    · next hne => exact Or.inr (Or.inr ⟨hne, hadd⟩)
  unfold finish at hadd
  split at hadd
  · next waiter _ =>
      change ((state.setPhase call phase).adds.modify waiter fun add =>
        { add with phase := .acquired })[other]? = some add at hadd
      rw [List.getElem?_modify] at hadd
      obtain ⟨before, hbefore, hafter⟩ := Option.map_eq_some_iff.mp hadd
      split at hafter
      · exact Or.inr (Or.inl (hafter ▸ rfl))
      · exact hdone (hafter ▸ hbefore)
  · exact hdone hadd

/-- Finishing a call leaves the topics, the log and the deletions alone. -/
theorem finish_fields : (state.finish call phase).targetTopics = state.targetTopics ∧
    (state.finish call phase).log = state.log ∧
      (state.finish call phase).deletions = state.deletions := by
  unfold finish
  split <;> exact ⟨rfl, rfl, rfl⟩

/-- The holder is done and the first waiter gets the lock. -/
theorem serves_finish (hserves : state.mutatingTargetTopics.Serves state.Holds state.Waits)
    (hold : state.adds[call]? = some ⟨topics, old⟩) (hholds : AddPhase.holds old = true)
    (hdone : phase = .resolved ∨ ∃ error, phase = .rejected error) :
    (state.finish call phase).mutatingTargetTopics.Serves (state.finish call phase).Holds
      (state.finish call phase).Waits := by
  have hcall : state.Holds call := ⟨_, hold, hholds⟩
  have hlast : AddPhase.holds phase ≠ true ∧ phase ≠ .acquiring := by
    rcases hdone with rfl | ⟨error, rfl⟩ <;> exact ⟨nofun, nofun⟩
  unfold finish
  split
  · next waiter hwaiter =>
      have hmem := (hserves.waiting waiter).mp (Lock.mem_waiting_of_release hwaiter)
      have hne : waiter ≠ call := fun heq => not_waits_of_holds hcall (heq ▸ hmem)
      obtain ⟨⟨waiterTopics, waiterPhase⟩, hadd, -⟩ := hmem
      -- the first waiter has another number than the call, so it is found where it was
      have hset : ({ state.setPhase call phase with
          mutatingTargetTopics := state.mutatingTargetTopics.release.1 } :
            TargetTopics).adds[waiter]? = some ⟨waiterTopics, waiterPhase⟩ := by
        show (state.setPhase call phase).adds[waiter]? = _
        rw [getElem?_setPhase hold, if_neg hne, hadd]
      refine hserves.finish hcall (not_waits_of_holds hcall) ?_ ?_ ?_
      · rw [holds_setPhase hset, waits_setPhase hset, if_neg (Ne.symm hne), if_neg (Ne.symm hne)]
        show ¬ (state.setPhase call phase).Holds call ∧ ¬ (state.setPhase call phase).Waits call
        rw [holds_setPhase hold, waits_setPhase hold, if_pos rfl, if_pos rfl]
        exact hlast
      · intro other hother
        obtain rfl := Option.some.inj (hwaiter.symm.trans hother)
        rw [holds_setPhase hset, waits_setPhase hset, if_pos rfl, if_pos rfl]
        exact ⟨rfl, nofun⟩
      · intro other hcaller hother
        have hwaits : other ≠ waiter := fun heq => hother (heq ▸ hwaiter)
        rw [holds_setPhase hset, waits_setPhase hset, if_neg hwaits, if_neg hwaits]
        show ((state.setPhase call phase).Holds other ↔ _) ∧
          ((state.setPhase call phase).Waits other ↔ _)
        rw [holds_setPhase hold, waits_setPhase hold, if_neg hcaller, if_neg hcaller]
        exact ⟨Iff.rfl, Iff.rfl⟩
  · next hnone =>
      refine hserves.finish hcall (not_waits_of_holds hcall) ?_ ?_ ?_
      · show ¬ (state.setPhase call phase).Holds call ∧ ¬ (state.setPhase call phase).Waits call
        rw [holds_setPhase hold, waits_setPhase hold, if_pos rfl, if_pos rfl]
        exact hlast
      · intro other hother
        rw [hnone] at hother
        cases hother
      · intro other hcaller _
        show ((state.setPhase call phase).Holds other ↔ _) ∧
          ((state.setPhase call phase).Waits other ↔ _)
        rw [holds_setPhase hold, waits_setPhase hold, if_neg hcaller, if_neg hcaller]
        exact ⟨Iff.rfl, Iff.rfl⟩

/-! ## What is added stays -/

/-- The add has registered its topics and has not failed. -/
def AddPhase.standing : AddPhase → Bool
  | .resolved | .refreshing _ _ => true
  | .acquiring | .acquired | .rejected _ => false

/-- The lock is as the calls say. The topics of the adds that have not failed are target topics, and
those of the successful ones are in the snapshot of the add that is under way, unless a deletion has
taken them out; that add is the only one to add anything. -/
structure Sound (state : TargetTopics) : Prop where
  serves : state.mutatingTargetTopics.Serves state.Holds state.Waits
  kept : ∀ (call : Nat) (add : Add), state.adds[call]? = some add → AddPhase.standing add.phase = true →
    ∀ topic ∈ add.topics, Present call topic state.log → topic ∈ state.targetTopics
  snapshot : ∀ (call : Nat) (topics : List String) (previousTopics : Finset String) (refresh : Nat),
    state.adds[call]? = some ⟨topics, .refreshing previousTopics refresh⟩ →
      ∀ (other : Nat) (add : Add), state.adds[other]? = some add → add.phase = .resolved →
        ∀ topic ∈ add.topics, Present other topic state.log → topic ∈ previousTopics
  extent : ∀ (call : Nat) (topics : List String) (previousTopics : Finset String) (refresh : Nat),
    state.adds[call]? = some ⟨topics, .refreshing previousTopics refresh⟩ →
      state.targetTopics ⊆ previousTopics ∪ topics.toFinset

/-- At first nothing is locked and no topic is known. -/
theorem sound_initial : Sound {} := by
  refine ⟨Lock.serves_free.congr ?_ ?_, ?_, ?_, ?_⟩
  · intro call
    simp [Holds]
  · intro call
    simp [Waits]
  · intro call add hadd
    cases hadd
  · intro call topics previousTopics refresh hadd
    cases hadd
  · intro call topics previousTopics refresh hadd
    cases hadd

/-- No other call is under way while one has the lock. -/
theorem refreshing_unique (h : state.mutatingTargetTopics.Serves state.Holds state.Waits)
    (hholds : state.Holds call) {previousTopics : Finset String} {refresh : Nat}
    (hadd : state.adds[other]? = some ⟨topics, .refreshing previousTopics refresh⟩) :
    other = call :=
  h.exclusive other call ⟨_, hadd, rfl⟩ hholds

/-- An add is done, and its topics and those of the successful ones are as they have to be. -/
theorem sound_finish (hserves : state.mutatingTargetTopics.Serves state.Holds state.Waits)
    (hold : state.adds[call]? = some ⟨topics, old⟩) (hholds : AddPhase.holds old = true)
    (hdone : phase = .resolved ∨ ∃ error, phase = .rejected error)
    (hkept : ∀ (other : Nat) (add : Add), state.adds[other]? = some add →
      add.phase = .resolved → ∀ topic ∈ add.topics, Present other topic state.log →
        topic ∈ state.targetTopics)
    (hcall : phase = .resolved → ∀ topic ∈ topics, Present call topic state.log →
      topic ∈ state.targetTopics) : Sound (state.finish call phase) := by
  obtain ⟨htargets, hlog, -⟩ := @finish_fields state call phase
  -- the call was the only one under way
  have hnone : ∀ (other : Nat) (otherTopics : List String) previousTopics refresh,
      (state.finish call phase).adds[other]? ≠
        some ⟨otherTopics, .refreshing previousTopics refresh⟩ := by
    intro other otherTopics previousTopics refresh hadd
    rcases adds_finish hold hadd with ⟨-, heq⟩ | hacquired | ⟨hne, hadd⟩
    · cases heq
      rcases hdone with hresolved | ⟨error, herror⟩
      · cases hresolved
      · cases herror
    · cases hacquired
    · exact hne (refreshing_unique hserves ⟨_, hold, hholds⟩ hadd)
  refine ⟨serves_finish hserves hold hholds hdone, ?_, ?_, ?_⟩
  · intro other add hadd hstanding topic hmem hpresent
    rw [hlog] at hpresent
    rw [htargets]
    rcases adds_finish hold hadd with ⟨heq, rfl⟩ | hacquired | ⟨-, hbefore⟩
    · subst heq
      refine hcall ?_ topic hmem hpresent
      rcases hdone with hresolved | ⟨error, rfl⟩
      · exact hresolved
      · cases hstanding
    · rw [hacquired] at hstanding
      cases hstanding
    · obtain ⟨otherTopics, otherPhase⟩ := add
      cases otherPhase with
      | resolved => exact hkept other _ hbefore rfl topic hmem hpresent
      | refreshing previousTopics refresh => exact absurd hadd (hnone other _ previousTopics refresh)
      | acquiring | acquired | rejected _ => cases hstanding
  · intro other otherTopics previousTopics refresh hadd
    exact absurd hadd (hnone other _ previousTopics refresh)
  · intro other otherTopics previousTopics refresh hadd
    exact absurd hadd (hnone other _ previousTopics refresh)

/-- Nothing about the topics changes, and no call takes one of the phases that matter for them. -/
theorem Sound.calls (h : Sound state)
    (hserves : next.mutatingTargetTopics.Serves next.Holds next.Waits)
    (htargets : next.targetTopics = state.targetTopics) (hlog : next.log = state.log)
    (hadds : ∀ (call : Nat) (add : Add), next.adds[call]? = some add →
      AddPhase.standing add.phase = true → state.adds[call]? = some add) : Sound next := by
  refine ⟨hserves, ?_, ?_, ?_⟩
  · intro call add hadd hstanding
    rw [hlog, htargets]
    exact h.kept call add (hadds call add hadd hstanding) hstanding
  · intro call topics previousTopics refresh hadd other add hother hresolved
    rw [hlog]
    refine h.snapshot call topics previousTopics refresh (hadds call _ hadd rfl) other add
      (hadds other add hother ?_) hresolved
    rw [hresolved]
    rfl
  · intro call topics previousTopics refresh hadd
    rw [htargets]
    exact h.extent call topics previousTopics refresh (hadds call _ hadd rfl)

/-- Nothing that concerns the adds changes. -/
theorem Sound.congr (h : Sound state)
    (hlock : next.mutatingTargetTopics = state.mutatingTargetTopics)
    (hadds : next.adds = state.adds) (htargets : next.targetTopics = state.targetTopics)
    (hlog : next.log = state.log) : Sound next := by
  refine h.calls ?_ htargets hlog fun _ _ hadd _ => hadds ▸ hadd
  rw [hlock]
  refine h.serves.congr ?_ ?_
  · intro call
    rw [Holds, hadds, Holds]
  · intro call
    rw [Waits, hadds, Waits]

/-- A call of `addMultipleTargetTopics` takes the lock or waits for it. -/
theorem Sound.addMultipleTargetTopics (h : Sound state) (topics : List String) :
    Sound (state.addMultipleTargetTopics topics) := by
  have hfresh : state.adds[state.adds.length]? = none := List.getElem?_eq_none (Nat.le_refl _)
  have hwaits : ¬ state.Waits state.adds.length := by
    intro ⟨add, hadd, _⟩
    rw [hfresh] at hadd
    cases hadd
  have hserves := h.serves.acquire hwaits
  -- the new call has the next number and no other call changes
  have hlookup : ∀ other, (state.addMultipleTargetTopics topics).adds[other]? =
      if other = state.adds.length then
        some ⟨topics, if (state.mutatingTargetTopics.acquire state.adds.length).2 then .acquired
          else .acquiring⟩
      else state.adds[other]? := by
    intro other
    show (state.adds ++ [_])[other]? = _
    by_cases heq : other = state.adds.length
    · rw [if_pos heq, heq]
      exact List.getElem?_concat_length
    · rw [if_neg heq]
      rcases Nat.lt_or_gt_of_ne heq with hlt | hgt
      · exact List.getElem?_append_left hlt
      · rw [List.getElem?_eq_none (Nat.le_of_lt hgt), List.getElem?_eq_none]
        rw [List.length_append]
        exact hgt
  refine h.calls (hserves.congr ?_ ?_) rfl rfl ?_
  · intro other
    rw [Holds, hlookup]
    split
    · next heq =>
        subst heq
        cases (state.mutatingTargetTopics.acquire state.adds.length).2 <;>
          simp [AddPhase.holds, Holds]
    · next hne => simp [hne, Holds]
  · intro other
    rw [Waits, hlookup]
    split
    · next heq =>
        subst heq
        cases (state.mutatingTargetTopics.acquire state.adds.length).2 <;> simp [Waits]
    · next hne => simp [hne, Waits]
  · intro other add hadd hstanding
    rw [hlookup] at hadd
    split at hadd
    · obtain rfl := Option.some.inj hadd
      split at hstanding <;> cases hstanding
    · exact hadd

/-- A call whose wait times out leaves the queue. -/
theorem Sound.lockTimeout (h : Sound state) (hold : state.adds[call]? = some ⟨topics, .acquiring⟩)
    (error : KafkaError) :
    Sound { state.setPhase call (.rejected error) with
      mutatingTargetTopics := state.mutatingTargetTopics.expire call } := by
  refine h.calls ((h.serves.expire call).congr ?_ ?_) rfl rfl ?_
  · intro other
    show (state.setPhase call (.rejected error)).Holds other ↔ _
    rw [holds_setPhase hold]
    split
    · next heq =>
        subst heq
        refine iff_of_false nofun fun hholds => not_waits_of_holds hholds ⟨_, hold, rfl⟩
    · exact Iff.rfl
  · intro other
    show (state.setPhase call (.rejected error)).Waits other ↔ _
    rw [waits_setPhase hold]
    split
    · next heq => exact iff_of_false nofun fun hwaits => hwaits.2 heq
    · next hne => exact (and_iff_left hne).symm
  · intro other add hadd hstanding
    change (state.setPhase call (.rejected error)).adds[other]? = some add at hadd
    rw [getElem?_setPhase hold] at hadd
    split at hadd
    · obtain rfl := Option.some.inj hadd
      cases hstanding
    · exact hadd

/-- The topics of an add that stands are still target topics when another add registers its own. -/
theorem Sound.kept_addTopics (h : Sound state) {topic : String}
    (hadd : state.adds[other]? = some add) (hstanding : AddPhase.standing add.phase = true)
    (hmem : topic ∈ add.topics) (hpresent : Present other topic (state.addTopics call topics).log) :
    topic ∈ (state.addTopics call topics).targetTopics := by
  rcases hpresent with ⟨-, hnew⟩ | hbefore
  · exact Finset.mem_union_right _ (List.mem_toFinset.mpr hnew)
  · exact Finset.mem_union_left _ (h.kept other add hadd hstanding topic hmem hbefore)

/-- A refresh of the metadata leaves the topics, the lock, the calls and the log alone. -/
theorem refreshMetadata_fields : state.refreshMetadata.targetTopics = state.targetTopics ∧
    state.refreshMetadata.mutatingTargetTopics = state.mutatingTargetTopics ∧
      state.refreshMetadata.adds = state.adds ∧ state.refreshMetadata.log = state.log := by
  unfold refreshMetadata
  split <;> exact ⟨rfl, rfl, rfl, rfl⟩

/-- A refresh of the metadata is started or shared. -/
theorem Sound.refreshMetadata (h : Sound state) : Sound state.refreshMetadata := by
  obtain ⟨htargets, hlock, hadds, hlog⟩ := @refreshMetadata_fields state
  exact h.congr hlock hadds htargets hlog

/-- An add has registered its topics and waits for a refresh. -/
theorem Sound.refreshing (h : Sound state) (hold : state.adds[call]? = some ⟨topics, .acquired⟩)
    (refresh : Nat) :
    Sound ((state.addTopics call topics).setPhase call
      (.refreshing state.targetTopics refresh)) := by
  have hholds : state.Holds call := ⟨_, hold, rfl⟩
  have hadded : (state.addTopics call topics).adds[call]? = some ⟨topics, .acquired⟩ := hold
  refine ⟨h.serves.congr ?_ ?_, ?_, ?_, ?_⟩
  · intro other
    rw [holds_setPhase hadded]
    split
    · next heq => exact iff_of_true rfl (heq ▸ hholds)
    · exact Iff.rfl
  · intro other
    rw [waits_setPhase hadded]
    split
    · next heq => exact iff_of_false nofun fun hwaits => not_waits_of_holds hholds (heq ▸ hwaits)
    · exact Iff.rfl
  · intro other add hadd hstanding topic hmem hpresent
    rw [getElem?_setPhase hadded] at hadd
    split at hadd
    · obtain rfl := Option.some.inj hadd
      exact Finset.mem_union_right _ (List.mem_toFinset.mpr hmem)
    · exact h.kept_addTopics hadd hstanding hmem hpresent
  · intro other otherTopics previousTopics otherRefresh hother resolved add hadd hresolved topic hmem
      hpresent
    rw [getElem?_setPhase hadded] at hother hadd
    split at hother
    · cases hother
      -- a successful add has registered its topics before
      split at hadd
      · obtain rfl := Option.some.inj hadd
        cases hresolved
      · next hne =>
          rcases hpresent with ⟨heq, -⟩ | hbefore
          · exact absurd heq.symm hne
          · exact h.kept resolved add hadd (by rw [hresolved]; rfl) topic hmem hbefore
    · next hne => exact absurd (refreshing_unique h.serves hholds hother) hne
  · intro other otherTopics previousTopics otherRefresh hother
    rw [getElem?_setPhase hadded] at hother
    split at hother
    · cases hother
      exact Finset.Subset.refl _
    · next hne => exact absurd (refreshing_unique h.serves hholds hother) hne

/-- A call that has the lock adds its topics. -/
theorem Sound.register (h : Sound state) (hold : state.adds[call]? = some ⟨topics, .acquired⟩)
    (metadataLoaded : Bool) : Sound (state.register call topics metadataLoaded) := by
  have hadded : (state.addTopics call topics).adds[call]? = some ⟨topics, .acquired⟩ := hold
  unfold TargetTopics.register
  dsimp only
  split
  · obtain ⟨htargets, hlock, hadds, hlog⟩ := @refreshMetadata_fields (state.addTopics call topics)
    refine (h.refreshing hold (state.addTopics call topics).sharedRefresh).congr hlock ?_ htargets
      hlog
    show (state.addTopics call topics).refreshMetadata.adds.modify call _ = _
    rw [hadds]
    rfl
  · refine sound_finish h.serves hadded rfl (Or.inl rfl) ?_ fun _ topic hmem _ =>
      Finset.mem_union_right _ (List.mem_toFinset.mpr hmem)
    intro other add hadd hresolved topic hmem hpresent
    exact h.kept_addTopics hadd (by rw [hresolved]; rfl) hmem hpresent

/-- A call whose refresh has ended releases the lock, and takes its topics back if it failed. -/
theorem Sound.refreshed (h : Sound state) {previousTopics : Finset String} {refresh : Nat}
    (hold : state.adds[call]? = some ⟨topics, .refreshing previousTopics refresh⟩)
    (result : Except KafkaError Unit) : Sound (state.refreshed call previousTopics result) := by
  have hresolved : ∀ (other : Nat) (add : Add), state.adds[other]? = some add →
      add.phase = .resolved → ∀ topic ∈ add.topics, Present other topic state.log →
        topic ∈ state.targetTopics := by
    intro other add hadd hphase
    exact h.kept other add hadd (by rw [hphase]; rfl)
  unfold TargetTopics.refreshed
  cases result with
  | ok value =>
      exact sound_finish h.serves hold rfl (Or.inl rfl) hresolved fun _ => h.kept call _ hold rfl
  | error error =>
      dsimp only
      split
      · -- the snapshot has the topics of the successful adds
        have hrolled : ({ state with targetTopics := previousTopics } : TargetTopics).adds[call]? =
            some ⟨topics, .refreshing previousTopics refresh⟩ := hold
        refine sound_finish h.serves hrolled rfl (Or.inr ⟨error, rfl⟩) ?_ nofun
        exact fun other add hadd hphase topic hmem hpresent =>
          h.snapshot call topics previousTopics refresh hold other add hadd hphase topic hmem hpresent
      · exact sound_finish h.serves hold rfl (Or.inr ⟨error, rfl⟩) hresolved nofun

/-- A deletion removes its topics. -/
theorem Sound.removeTopics (h : Sound state) (deletion : Nat) (topics : List String) :
    Sound (state.removeTopics deletion topics) := by
  refine ⟨h.serves, ?_, ?_, ?_⟩
  · intro call add hadd hstanding topic hmem hpresent
    refine Finset.mem_sdiff.mpr ⟨h.kept call add hadd hstanding topic hmem hpresent.2, ?_⟩
    exact fun hremoved => hpresent.1 (List.mem_toFinset.mp hremoved)
  · intro call callTopics previousTopics refresh hcall other add hadd hresolved topic hmem hpresent
    exact h.snapshot call callTopics previousTopics refresh hcall other add hadd hresolved topic hmem
      hpresent.2
  · intro call callTopics previousTopics refresh hcall
    exact Finset.sdiff_subset.trans (h.extent call callTopics previousTopics refresh hcall)

/-- A deletion that goes on changes nothing else. -/
theorem Sound.setDeletePhase (h : Sound state) (deletion : Nat) (phase : DeletePhase) :
    Sound (state.setDeletePhase deletion phase) :=
  h.congr rfl rfl rfl rfl

/-- A deletion whose refresh has ended only goes on. -/
theorem deleteRefreshed_cases {retries deletion : Nat} {phase : DeletePhase}
    (h : state.deleteRefreshed retries deletion phase = some next) :
    ∃ phase, next = state.setDeletePhase deletion phase := by
  unfold deleteRefreshed at h
  split at h
  · obtain ⟨result, -, rfl⟩ := Option.map_eq_some_iff.mp h
    split <;> exact ⟨_, rfl⟩
  · obtain ⟨result, -, rfl⟩ := Option.map_eq_some_iff.mp h
    split <;> exact ⟨_, rfl⟩
  · cases h

/-- A deletion takes its topics out and refreshes the metadata, or does nothing to them. -/
theorem deleteAnswered_cases {retries deletion : Nat} {phase : DeletePhase}
    {result : Except KafkaError Unit}
    (h : state.deleteAnswered retries deletion topics phase result = some next) :
    (∃ phase, next = state.setDeletePhase deletion phase) ∨
      ∃ phase, next =
        (state.removeTopics deletion topics).refreshMetadata.setDeletePhase deletion phase := by
  unfold deleteAnswered at h
  split at h
  · cases h
    exact Or.inl ⟨_, rfl⟩
  · cases h
    exact Or.inr ⟨_, rfl⟩
  · cases h
    exact Or.inl ⟨_, rfl⟩
  · cases h
    exact Or.inl ⟨_, rfl⟩
  · cases h

/-- Every event keeps the lock and the added topics as they have to be. -/
theorem Sound.step {retries : Nat} {event : Event} (h : Sound state)
    (hstep : step retries state event = some next) : Sound next := by
  cases event with
  | addMultipleTargetTopics topics =>
      cases hstep
      exact h.addMultipleTargetTopics topics
  | lockTimeout call =>
      rw [TargetTopics.step] at hstep
      split at hstep
      · next topics hold =>
          cases hstep
          exact h.lockTimeout hold _
      · cases hstep
  | register call metadataLoaded =>
      rw [TargetTopics.step] at hstep
      split at hstep
      · next topics hold =>
          cases hstep
          exact h.register hold metadataLoaded
      · cases hstep
  | refreshed call =>
      rw [TargetTopics.step] at hstep
      split at hstep
      · next topics previousTopics refresh hold =>
          obtain ⟨result, -, rfl⟩ := Option.map_eq_some_iff.mp hstep
          exact h.refreshed hold result
      · cases hstep
  | deleteTopics topics =>
      cases hstep
      exact h.refreshMetadata.congr rfl rfl rfl rfl
  | deleteRefreshed deletion =>
      rw [TargetTopics.step] at hstep
      split at hstep
      · obtain ⟨phase, rfl⟩ := deleteRefreshed_cases hstep
        exact h.setDeletePhase deletion phase
      · cases hstep
  | deleteAnswered deletion result =>
      rw [TargetTopics.step] at hstep
      split at hstep
      · rcases deleteAnswered_cases hstep with ⟨phase, rfl⟩ | ⟨phase, rfl⟩
        · exact h.setDeletePhase deletion phase
        · exact (h.removeTopics deletion _).refreshMetadata.setDeletePhase deletion phase
      · cases hstep
  | retryTimer deletion =>
      rw [TargetTopics.step] at hstep
      split at hstep
      · cases hstep
        exact h.refreshMetadata.setDeletePhase deletion _
      · cases hstep
  | refreshMetadata =>
      cases hstep
      exact h.refreshMetadata
  | settleRefresh result =>
      rw [TargetTopics.step] at hstep
      split at hstep
      · cases hstep
        exact h.congr rfl rfl rfl rfl
      · cases hstep

/-- In a sound state the topics of every add that succeeded are targeted until they are taken out. -/
theorem Sound.keepsAdded (h : Sound state) : KeepsAdded state := by
  intro call add hadd hresolved
  exact h.kept call add hadd (by rw [hresolved]; rfl)

/-! ## What is taken out -/

/-- A topic that a deletion has taken out, completed or not, is not a target topic until an add
registers it again. -/
def Absent (state : TargetTopics) : Prop :=
  ∀ deletion topic, Gone deletion topic state.log → topic ∉ state.targetTopics

/-- Absence depends on the topics and the log only. -/
theorem Absent.congr (h : Absent state) (htargets : next.targetTopics = state.targetTopics)
    (hlog : next.log = state.log) : Absent next := by
  rw [Absent, htargets, hlog]
  exact h

/-- Finishing a call registers nothing. -/
theorem Absent.finish (h : Absent state) (call : Nat) (phase : AddPhase) :
    Absent (state.finish call phase) :=
  h.congr finish_fields.1 finish_fields.2.1

/-- A refresh of the metadata registers nothing. -/
theorem Absent.refreshMetadata (h : Absent state) : Absent state.refreshMetadata :=
  h.congr refreshMetadata_fields.1 refreshMetadata_fields.2.2.2

/-- An add registers its own topics only. -/
theorem Absent.register (h : Absent state) (call : Nat) (topics : List String)
    (metadataLoaded : Bool) : Absent (state.register call topics metadataLoaded) := by
  have hadded : Absent (state.addTopics call topics) := by
    intro deletion topic hgone hmem
    rcases Finset.mem_union.mp hmem with hbefore | hnew
    · exact h deletion topic hgone.2 hbefore
    · exact hgone.1 (List.mem_toFinset.mp hnew)
  unfold TargetTopics.register
  dsimp only
  split
  · exact hadded.refreshMetadata.congr rfl rfl
  · exact hadded.finish call .resolved

/-- A snapshot of which nothing has been taken out brings nothing back. -/
theorem Absent.refreshed (h : Absent state) {previousTopics : Finset String}
    {result : Except KafkaError Unit}
    (hintact : ∀ error, result = .error error → rollsBack error = true →
      previousTopics ⊆ state.targetTopics) (call : Nat) :
    Absent (state.refreshed call previousTopics result) := by
  unfold TargetTopics.refreshed
  cases result with
  | ok value => exact h.finish call .resolved
  | error error =>
      dsimp only
      split
      · next hrolls =>
          have hrolled : Absent { state with targetTopics := previousTopics } :=
            fun deletion topic hgone hmem =>
              h deletion topic hgone (hintact error rfl hrolls hmem)
          exact hrolled.finish call _
      · exact h.finish call _

/-- A deletion takes its topics out. -/
theorem Absent.removeTopics (h : Absent state) (deletion : Nat) (topics : List String) :
    Absent (state.removeTopics deletion topics) := by
  intro other topic hgone hmem
  obtain ⟨hbefore, hkept⟩ := Finset.mem_sdiff.mp hmem
  rcases hgone with ⟨-, hremoved⟩ | hgone
  · exact hkept (List.mem_toFinset.mpr hremoved)
  · exact h other topic hgone hbefore

/-- Every step that leaves the snapshots intact keeps what was taken out absent. -/
theorem Absent.step {retries : Nat} {event : Event} (h : Absent state) (hintact : Intact state event)
    (hstep : step retries state event = some next) : Absent next := by
  cases event with
  | addMultipleTargetTopics topics =>
      cases hstep
      exact h.congr rfl rfl
  | lockTimeout call =>
      rw [TargetTopics.step] at hstep
      split at hstep <;> cases hstep
      exact h.congr rfl rfl
  | register call metadataLoaded =>
      rw [TargetTopics.step] at hstep
      split at hstep <;> cases hstep
      exact h.register call _ metadataLoaded
  | refreshed call =>
      rw [TargetTopics.step] at hstep
      split at hstep
      · next topics previousTopics refresh hold =>
          obtain ⟨result, hresult, rfl⟩ := Option.map_eq_some_iff.mp hstep
          refine h.refreshed (fun error heq hrolls => ?_) call
          subst heq
          exact hintact topics previousTopics ⟨call, refresh, error, rfl, hold, hresult, hrolls⟩
      · cases hstep
  | deleteTopics topics =>
      cases hstep
      exact h.refreshMetadata.congr rfl rfl
  | deleteRefreshed deletion =>
      rw [TargetTopics.step] at hstep
      split at hstep
      · obtain ⟨phase, rfl⟩ := deleteRefreshed_cases hstep
        exact h.congr rfl rfl
      · cases hstep
  | deleteAnswered deletion result =>
      rw [TargetTopics.step] at hstep
      split at hstep
      · rcases deleteAnswered_cases hstep with ⟨phase, rfl⟩ | ⟨phase, rfl⟩
        · exact h.congr rfl rfl
        · exact (h.removeTopics deletion _).refreshMetadata.congr rfl rfl
      · cases hstep
  | retryTimer deletion =>
      rw [TargetTopics.step] at hstep
      split at hstep <;> cases hstep
      exact h.refreshMetadata.congr rfl rfl
  | refreshMetadata =>
      cases hstep
      exact h.refreshMetadata
  | settleRefresh result =>
      rw [TargetTopics.step] at hstep
      split at hstep <;> cases hstep
      exact h.congr rfl rfl

/-- An add that fails because of a topic puts its snapshot back. -/
theorem targetTopics_of_failsWith {retries : Nat} {event : Event} {previousTopics : Finset String}
    (hfails : FailsWith state event topics previousTopics)
    (hstep : step retries state event = some next) : next.targetTopics = previousTopics := by
  obtain ⟨call, refresh, error, rfl, hold, houtcome, hrolls⟩ := hfails
  rw [TargetTopics.step, hold] at hstep
  dsimp only at hstep
  rw [houtcome] at hstep
  cases hstep
  show (TargetTopics.finish call (.rejected error)
    (if rollsBack error then { state with targetTopics := previousTopics } else state)).targetTopics
      = previousTopics
  rw [if_pos hrolls]
  exact finish_fields.1

/-- An add that fails because of a topic takes out exactly its own topics if nothing of its snapshot
has been taken out, and only then. -/
theorem takesBack_iff {retries : Nat} {event : Event} (h : Sound state)
    (hstep : step retries state event = some next) :
    TakesBack state event next ↔ Intact state event := by
  refine forall_congr' fun topics => forall_congr' fun previousTopics =>
    imp_congr_right fun hfails => ?_
  rw [targetTopics_of_failsWith hfails hstep]
  obtain ⟨call, refresh, error, -, hold, -, -⟩ := hfails
  have hextent := h.extent call topics previousTopics refresh hold
  constructor
  · intro heq
    rw [heq]
    exact Finset.sdiff_subset
  · intro hsubset
    ext topic
    rw [Finset.mem_sdiff, Finset.mem_sdiff]
    constructor
    · intro hmem
      exact ⟨hsubset hmem, fun hown => hown.2 hmem⟩
    · intro ⟨hmem, hown⟩
      by_contra hnot
      rcases Finset.mem_union.mp (hextent hmem) with hprevious | htopics
      · exact hnot hprevious
      · exact hown ⟨htopics, hnot⟩

/-! ## Runs -/

/-- Whenever an add fails because of a topic, its snapshot is intact. -/
def StaysIntact (retries : Nat) (events : List Event) : Prop :=
  ∀ before event state next, before ++ [event] <+: events →
    run (step retries) {} before = some state → step retries state event = some next →
      Intact state event

/-- Along a run with intact snapshots, what was taken out is absent. -/
theorem absent_of_staysIntact {retries : Nat} {events before : List Event}
    (hintact : StaysIntact retries events) (hbefore : before <+: events)
    (hrun : run (step retries) {} before = some state) : Absent state := by
  induction before using List.reverseRecOn generalizing state with
  | nil =>
      cases hrun
      exact fun deletion topic hgone => hgone.elim
  | append_singleton before event ih =>
      obtain ⟨last, hlast, hstep⟩ := run_concat_eq_some.mp hrun
      have habsent := ih ((List.prefix_append before [event]).trans hbefore) hlast
      exact habsent.step (hintact before event last state hbefore hlast hstep) hstep

/-- No update is lost through any events exactly if no topic of the snapshot has been taken out when
an add fails because of a topic. -/
theorem losesNoUpdate_iff (retries : Nat) (events : List Event) :
    LosesNoUpdate retries events ↔ StaysIntact retries events := by
  have hsound : ∀ {before : List Event} {state : TargetTopics},
      run (step retries) {} before = some state → Sound state := fun hrun =>
    invariant_of_run (fun _ _ _ h hstep => h.step hstep) sound_initial hrun
  constructor
  · intro hloses before event state next hprefix hrun hstep
    obtain ⟨-, -, htakes⟩ :=
      hloses before state ((List.prefix_append before [event]).trans hprefix) hrun
    exact (takesBack_iff (hsound hrun) hstep).mp (htakes event next hprefix hstep)
  · intro hintact before state hbefore hrun
    refine ⟨(hsound hrun).keepsAdded, ?_, ?_⟩
    · exact fun deletion _ _ _ topic hgone =>
        absent_of_staysIntact hintact hbefore hrun deletion topic hgone
    · intro event next hprefix hstep
      exact (takesBack_iff (hsound hrun) hstep).mpr
        (hintact before event state next hprefix hrun hstep)

/-- The error of a topic that does not exist. -/
def unknownTopic : KafkaError := createErrorFromCode 3

/-- The topic `orders` is added; a deletion takes it out while an add of a topic that does not exist
waits for its refresh, which then fails for both. -/
def deletionDuringAdd : List Event :=
  [.addMultipleTargetTopics ["orders"], .register 0 true, .settleRefresh (.ok ()), .refreshed 0,
    .deleteTopics ["orders"], .settleRefresh (.ok ()), .deleteRefreshed 0,
    .deleteAnswered 0 (.ok ()), .addMultipleTargetTopics ["ordres"], .register 1 true,
    .deleteAnswered 0 (.ok ()), .settleRefresh (.error unknownTopic)]

/-- The failing add brings the topic that was deleted back. -/
theorem resurrected : ∃ state next, run (step 5) {} deletionDuringAdd = some state ∧
    step 5 state (.refreshed 1) = some next ∧ state.targetTopics = {"ordres"} ∧
      next.targetTopics = {"orders"} ∧
        ¬ LosesNoUpdate 5 (deletionDuringAdd ++ [.refreshed 1]) := by
  have hfields : (run (step 5) {} deletionDuringAdd).map (fun state =>
      (state.targetTopics, state.adds[1]?, state.refreshes[2]?)) =
        some ({"ordres"}, some ⟨["ordres"], .refreshing {"orders"} 2⟩,
          some (some (.error unknownTopic))) := by decide
  obtain ⟨state, hrun, heq⟩ := Option.map_eq_some_iff.mp hfields
  simp only [Prod.mk.injEq] at heq
  obtain ⟨htargets, hadd, hrefresh⟩ := heq
  have houtcome : state.outcome 2 = some (.error unknownTopic) := by
    rw [outcome, hrefresh]
    rfl
  have hfails : FailsWith state (.refreshed 1) ["ordres"] {"orders"} :=
    ⟨1, 2, unknownTopic, rfl, hadd, houtcome, rfl⟩
  obtain ⟨next, hstep⟩ : ∃ next, step 5 state (.refreshed 1) = some next := by
    rw [step, hadd]
    dsimp only
    rw [houtcome]
    exact ⟨_, rfl⟩
  have hnext := targetTopics_of_failsWith hfails hstep
  refine ⟨state, next, hrun, hstep, htargets, hnext, fun hloses => ?_⟩
  have htakes := (hloses deletionDuringAdd state (List.prefix_append _ _) hrun).2.2
    (.refreshed 1) next List.prefix_rfl hstep ["ordres"] {"orders"} hfails
  rw [htargets, hnext] at htakes
  exact absurd htakes (by decide)

end TargetTopics

end KafkaJs.Cluster
