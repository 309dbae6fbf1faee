import KafkaJs.Consumer.PartitionSeek
import Mathlib.Data.List.Basic

/-!
# The stages of a seek

A seek that is neither lost nor overridden is an entry of the map, then an offset that a fetch
commits, then the offset from which the next request takes its own, and last the offset of a
request. `Sound.step` says that an undisturbed step keeps it in one of these stages, and
`kept_of_undisturbed` that it is kept in every run in which no request was being prepared when
`seek` was called, nothing else was going on with the partition when the entry is popped, and the
commit succeeds without anything in between. In the run of `lost_failedCommit` the commit fails,
and the consumer goes on where it was.
-/

namespace KafkaJs.Consumer.PartitionSeek

open Execution
open Offsets (isInvalid)

/-! ## The stages of a seek -/

/-- Fetches while the entry is in the map: whoever comes to the partition pops it. -/
def BeforePop (fetch : SeekFetch) : Prop :=
  match fetch.phase with
  | .begun | .ended => True
  | .sent before => before = true
  | .passed | .resolving _ | .ready => fetch.leads = false
  | .committing _ _ | .built _ _ => False

/-- Fetches beside the one that commits the seek. -/
def BesidesCommit (fetch : SeekFetch) : Prop :=
  match fetch.phase with
  | .begun | .passed | .ready | .ended => True
  | .committing _ _ | .resolving _ | .built _ _ | .sent _ => False

/-- Fetches when the seek has taken effect: the offset that they request is the one sought. -/
def BeforeRequest (autoCommit : Bool) (sought : Int) (fetch : SeekFetch) : Prop :=
  match fetch.phase with
  | .begun | .passed | .ready | .ended => True
  | .resolving stored => autoCommit = true → stored = none ∨ stored = some sought
  | .built offset before => offset = sought ∧ before = false
  | .committing _ _ | .sent _ => False

/-- Fetches after the first request: none of them is older than the seek. -/
def AfterRequest (fetch : SeekFetch) : Prop :=
  match fetch.phase with
  | .begun | .passed | .resolving _ | .ready | .ended => True
  | .built _ before | .sent before => before = false
  | .committing _ _ => False

/-- The entry is in the map. -/
structure Pending (state : PartitionSeek) : Prop where
  seekOffset : state.seekOffset = some state.sought
  nextRequest : state.nextRequest = none
  fetches : ∀ fetch ∈ state.fetches, BeforePop fetch

/-- Nothing of the partition waits, is processed or is pending. -/
structure Idle (state : PartitionSeek) : Prop where
  seekOffset : state.seekOffset = none
  nextRequest : state.nextRequest = none
  queue : state.queue = []
  worker : state.worker = none

/-- One fetch commits the seek. -/
structure Committing (state : PartitionSeek) (index : Nat) : Prop where
  idle : Idle state
  autoCommit : state.autoCommit = true
  commits : state.commits = []
  fetch : ∃ leads applied,
    state.fetches[index]? = some ⟨leads, .committing state.sought applied⟩ ∧
      (applied = true → state.stored = state.sought)
  others : ∀ other fetch, other ≠ index → state.fetches[other]? = some fetch → BesidesCommit fetch

/-- The offset sought is where the next request takes it from: at the coordinator, from there in
the committed offsets, and from there in the position; or in the position at once. -/
structure Positioned (state : PartitionSeek) : Prop where
  committed : state.autoCommit = true → state.commits = [] ∧ state.stored = state.sought ∧
    (state.committedOffset = none ∨ state.committedOffset = some state.sought) ∧
    (state.resolvedOffset = none ∨
      state.resolvedOffset = some state.sought ∧ state.committedOffset = some state.sought)
  resolved : state.autoCommit = false → state.resolvedOffset = some state.sought

/-- The seek has taken effect, and nothing has been requested since. -/
structure Effective (state : PartitionSeek) : Prop where
  idle : Idle state
  positioned : Positioned state
  fetches : ∀ fetch ∈ state.fetches, BeforeRequest state.autoCommit state.sought fetch

/-- The offset sought has been requested. -/
structure Carried (state : PartitionSeek) : Prop where
  seekOffset : state.seekOffset = none
  nextRequest : state.nextRequest = some state.sought
  fetches : ∀ fetch ∈ state.fetches, AfterRequest fetch
  queue : ∀ batch ∈ state.queue, batch.before = false
  worker : ∀ worker ∈ state.worker, worker.before = false

/-- The stages of a seek that is neither lost nor overridden. -/
inductive Stage (state : PartitionSeek) : Prop where
  | pending (h : Pending state)
  | committing (index : Nat) (h : Committing state index)
  | effective (h : Effective state)
  | carried (h : Carried state)

/-- The invariant of a partition after a seek. -/
structure Sound (state : PartitionSeek) : Prop where
  nonneg : 0 ≤ state.sought
  passed : state.passed = []
  stage : Stage state

variable {state next : PartitionSeek} {index : Nat} {leads : Bool} {phase : SeekPhase}

/-- A property of all fetches, when one of them goes on. -/
theorem forall_setPhase {P : SeekFetch → Prop} (h : ∀ fetch ∈ state.fetches, P fetch)
    (hnew : P ⟨leads, phase⟩) : ∀ fetch ∈ (state.setPhase index leads phase).fetches, P fetch := by
  intro fetch hmem
  cases List.mem_or_eq_of_mem_set hmem with
  | inl hold => exact h fetch hold
  | inr heq =>
      rw [heq]
      exact hnew

/-- A property of all fetches, when a new one starts. -/
theorem forall_start {P : SeekFetch → Prop} {fetches : List SeekFetch}
    (h : ∀ fetch ∈ fetches, P fetch) (hnew : P ⟨leads, .begun⟩) :
    ∀ fetch ∈ fetches ++ [⟨leads, .begun⟩], P fetch := by
  intro fetch hmem
  cases List.mem_append.mp hmem with
  | inl hold => exact h fetch hold
  | inr hlast =>
      rw [List.mem_singleton.mp hlast]
      exact hnew

/-- After `seek`, every request that is on its way is older. -/
theorem beforePop_markFetch {fetch : SeekFetch} (h : isPreparing fetch = false) :
    BeforePop (markFetch fetch) := by
  obtain ⟨leads, phase⟩ := fetch
  cases phase with
  | begun | ended => trivial
  | sent => rfl
  | passed | resolving | ready => exact h
  | committing | built => cases h

/-- A seek begins as an entry of the map, whatever has happened before. -/
theorem Sound.seek {offset : Int}
    (hpreparing : ∀ fetch ∈ state.fetches, isPreparing fetch = false) (hoffset : 0 ≤ offset) :
    Sound (state.seek offset) where
  nonneg := hoffset
  passed := rfl
  stage := .pending
    { seekOffset := rfl
      nextRequest := rfl
      fetches := by
        intro fetch hmem
        obtain ⟨old, hold, rfl⟩ := List.mem_map.mp hmem
        exact beforePop_markFetch (hpreparing old hold) }

/-- A step that leaves the seek in one of its stages, and passes no older message. -/
structure Follows (state next : PartitionSeek) : Prop where
  sought : next.sought = state.sought
  passed : next.passed = state.passed
  stage : Stage next

/-! ## The entry is in the map -/

/-- With auto-commit, a fetch that is not awaited is one beside the commit. -/
theorem besidesCommit_of_beforePop {fetch : SeekFetch} (hautoCommit : state.autoCommit = true)
    (h : BeforePop fetch) (hawaited : state.isAwaited fetch = false) : BesidesCommit fetch := by
  obtain ⟨leads, phase⟩ := fetch
  cases phase with
  | begun | passed | ready | ended => trivial
  | sent => cases hawaited
  | resolving => exact absurd (hawaited.symm.trans hautoCommit) nofun
  | committing | built => cases h

/-- Without auto-commit, a fetch that is not awaited is one before the request. -/
theorem beforeRequest_of_beforePop {fetch : SeekFetch} {sought : Int}
    (hautoCommit : state.autoCommit = false)
    (h : BeforePop fetch) (hawaited : state.isAwaited fetch = false) :
    BeforeRequest state.autoCommit sought fetch := by
  obtain ⟨leads, phase⟩ := fetch
  cases phase with
  | begun | passed | ready | ended => trivial
  | sent => cases hawaited
  | resolving => exact fun htrue => absurd (hautoCommit.symm.trans htrue) nofun
  | committing | built => cases h

/-- A fetch pops the entry. Nothing else of the partition is going on, so the seek is committed
undisturbed, or is effective at once. -/
theorem Pending.pop (h : Pending state) (hfetch : state.fetches[index]? = some ⟨true, .begun⟩)
    (hundisturbed : Undisturbed state (.turn index)) :
    Follows state (state.takeTurn index true) := by
  have hpops : state.pops index = true := by simp [pops, h.seekOffset, hfetch]
  obtain ⟨hawaited, hqueue, hworker, hcommits⟩ := hundisturbed hpops
  unfold takeTurn
  rw [h.seekOffset]
  dsimp only
  split
  · next hautoCommit =>
      refine ⟨rfl, rfl, .committing index
        { idle := ⟨rfl, h.nextRequest, hqueue, hworker⟩
          autoCommit := hautoCommit
          commits := hcommits hautoCommit
          fetch := ⟨true, false, ?_, nofun⟩
          others := fun other fetch hother hfound => ?_ }⟩
      · exact List.getElem?_set_self (List.getElem?_eq_some_iff.mp hfetch).1
      · have hold : state.fetches[other]? = some fetch := by
          rw [← hfound]
          exact (List.getElem?_set_ne hother.symm).symm
        have hmem := List.mem_of_getElem? hold
        exact besidesCommit_of_beforePop hautoCommit (h.fetches fetch hmem) (hawaited fetch hmem)
  · next hautoCommit =>
      have hmanual : state.autoCommit = false := Bool.not_eq_true _ ▸ hautoCommit
      refine ⟨rfl, rfl, .effective
        { idle := ⟨rfl, h.nextRequest, hqueue, hworker⟩
          positioned := ⟨fun htrue => absurd htrue hautoCommit, fun _ => rfl⟩
          fetches := forall_setPhase (fun fetch hmem => ?_) trivial }⟩
      exact beforeRequest_of_beforePop hmanual (h.fetches fetch hmem) (hawaited fetch hmem)

/-- A fetch that does not read the partition goes on. -/
theorem Pending.setPhase (h : Pending state) (hnew : BeforePop ⟨leads, phase⟩) :
    Follows state (state.setPhase index leads phase) :=
  ⟨rfl, rfl, .pending ⟨h.seekOffset, h.nextRequest, forall_setPhase h.fetches hnew⟩⟩

/-- A pending seek stays pending or is popped. -/
theorem Pending.step {event : Event} (h : Pending state) (hundisturbed : Undisturbed state event)
    (hseek : ∀ offset, event ≠ .seek offset) (hfires : Fires state event next) :
    Follows state next := by
  cases hfires with
  | seek hoffset => exact absurd rfl (hseek _)
  | start leads =>
      exact ⟨rfl, rfl, .pending ⟨h.seekOffset, h.nextRequest, forall_start h.fetches trivial⟩⟩
  | @turn index leads hfetch =>
      cases leads with
      | true => exact h.pop hfetch hundisturbed
      | false => exact h.setPhase rfl
  | seekApplied hfetch | seekAnswered hfetch | send hfetch =>
      cases h.fetches _ (List.mem_of_getElem? hfetch)
  | @resolve index leads hfetch =>
      -- a fetch that is past the partition does not read it
      have hleads : leads = false := h.fetches _ (List.mem_of_getElem? hfetch)
      split
      · exact h.setPhase hleads
      · exact h.setPhase hleads
  | @resolveApplied index leads hfetch =>
      have hleads : leads = false := h.fetches _ (List.mem_of_getElem? hfetch)
      exact h.setPhase hleads
  | @resolveAnswered index leads stored default hfetch =>
      have hleads : leads = false := h.fetches _ (List.mem_of_getElem? hfetch)
      exact ⟨rfl, rfl, .pending ⟨h.seekOffset, h.nextRequest, forall_setPhase h.fetches hleads⟩⟩
  | @build index leads hfetch =>
      have hleads : leads = false := h.fetches _ (List.mem_of_getElem? hfetch)
      subst hleads
      exact h.setPhase trivial
  | responds hfetch =>
      exact ⟨rfl, rfl, .pending ⟨h.seekOffset, h.nextRequest, forall_setPhase h.fetches trivial⟩⟩
  | fails hfetch => exact h.setPhase trivial
  | handleBatch hworker hqueue =>
      unfold PartitionSeek.handleBatch
      split
      · exact ⟨rfl, rfl, .pending ⟨h.seekOffset, h.nextRequest, h.fetches⟩⟩
      · exact ⟨rfl, rfl, .pending ⟨h.seekOffset, h.nextRequest, h.fetches⟩⟩
  | @nextMessage rest before hworker =>
      have hstops : state.nextMessage ⟨.top rest, before⟩ rest = { state with worker := none } := by
        cases rest with
        | nil => rfl
        | cons message rest => simp [PartitionSeek.nextMessage, h.seekOffset]
      rw [hstops]
      exact ⟨rfl, rfl, .pending ⟨h.seekOffset, h.nextRequest, h.fetches⟩⟩
  | handlerReturns | throws | settled | autoCommitOffsets | commitApplied | commitAnswered
  | commitFails => exact ⟨rfl, rfl, .pending ⟨h.seekOffset, h.nextRequest, h.fetches⟩⟩

/-- Without an entry, the partition's turn changes nothing. -/
theorem takeTurn_of_none (h : state.seekOffset = none) :
    state.takeTurn index leads = state.setPhase index leads .passed := by
  unfold takeTurn
  rw [h]
  cases leads <;> rfl

/-! ## The seek is committed -/

variable {place : Nat} {fetch : SeekFetch}

/-- While the seek is committed, it has not taken effect. -/
theorem Committing.seeking (h : Committing state index) : state.seeking = true := by
  obtain ⟨leads, applied, hfetch, -⟩ := h.fetch
  exact List.any_eq_true.mpr ⟨_, List.mem_of_getElem? hfetch, rfl⟩

/-- Every other fetch is at a point where it neither reads nor requests the partition. -/
theorem Committing.besides (h : Committing state index)
    (hfetch : state.fetches[place]? = some fetch) :
    place = index ∨ BesidesCommit fetch := by
  by_cases hplace : place = index
  · exact .inl hplace
  · exact .inr (h.others place fetch hplace hfetch)

/-- The fetch at another place is not the one that commits. -/
theorem Committing.ne (h : Committing state index)
    (hfetch : state.fetches[place]? = some fetch) (hcommitting : isCommitting fetch = false) :
    place ≠ index := by
  intro hplace
  obtain ⟨leads, applied, hindex, -⟩ := h.fetch
  rw [hplace, hindex] at hfetch
  cases hfetch
  cases hcommitting

/-- The fetch that waits for a commit is the one that commits the seek. -/
theorem Committing.eq (h : Committing state index) {offset : Int} {applied : Bool}
    (hfetch : state.fetches[place]? = some ⟨leads, .committing offset applied⟩) :
    place = index ∧ offset = state.sought ∧ (applied = true → state.stored = state.sought) := by
  obtain ⟨found, foundApplied, hindex, hstored⟩ := h.fetch
  cases h.besides hfetch with
  | inl hplace =>
      subst hplace
      cases hfetch.symm.trans hindex
      exact ⟨rfl, rfl, hstored⟩
  | inr hbesides => cases hbesides

/-- Another fetch goes on. -/
theorem Committing.setPhase (h : Committing state index) (hplace : place ≠ index)
    (hnew : BesidesCommit ⟨leads, phase⟩) : Follows state (state.setPhase place leads phase) := by
  refine ⟨rfl, rfl, .committing index
    { idle := ⟨h.idle.seekOffset, h.idle.nextRequest, h.idle.queue, h.idle.worker⟩
      autoCommit := h.autoCommit
      commits := h.commits
      fetch := ?_
      others := fun other found hother hfound => ?_ }⟩
  · obtain ⟨leads, applied, hindex, hstored⟩ := h.fetch
    exact ⟨leads, applied, (List.getElem?_set_ne hplace).trans hindex, hstored⟩
  · have hget : (state.fetches.set place ⟨leads, phase⟩)[other]? = some found := hfound
    by_cases hsame : place = other
    · subst hsame
      obtain ⟨hlength, heq⟩ := List.getElem?_eq_some_iff.mp hget
      rw [List.getElem_set_self] at heq
      subst heq
      exact hnew
    · rw [List.getElem?_set_ne hsame] at hget
      exact h.others other found hother hget

/-- The commit of the seek is answered: the coordinator has the offset, and nothing else does. -/
theorem Committing.answered (h : Committing state index)
    (hstored : state.stored = state.sought) :
    Follows state ({ state with committedOffset := none, resolvedOffset := none }.setPhase index
      leads .passed) := by
  refine ⟨rfl, rfl, .effective
    { idle := ⟨h.idle.seekOffset, h.idle.nextRequest, h.idle.queue, h.idle.worker⟩
      positioned := ⟨fun _ => ⟨h.commits, hstored, .inl rfl, .inl rfl⟩,
        fun hmanual => absurd (hmanual.symm.trans h.autoCommit) nofun⟩
      fetches := fun found hmem => ?_ }⟩
  obtain ⟨other, hother⟩ := List.mem_iff_getElem?.mp hmem
  have hget : (state.fetches.set index ⟨leads, .passed⟩)[other]? = some found := hother
  by_cases hsame : index = other
  · subst hsame
    obtain ⟨hlength, heq⟩ := List.getElem?_eq_some_iff.mp hget
    rw [List.getElem_set_self] at heq
    subst heq
    trivial
  · rw [List.getElem?_set_ne hsame] at hget
    have hbesides := h.others other found (Ne.symm hsame) hget
    obtain ⟨foundLeads, foundPhase⟩ := found
    cases foundPhase with
    | begun | passed | ready | ended => trivial
    | committing | resolving | built | sent => cases hbesides

/-- A new fetch begins. -/
theorem Committing.start (h : Committing state index) (leads : Bool) :
    Follows state { state with fetches := state.fetches ++ [⟨leads, .begun⟩] } := by
  refine ⟨rfl, rfl, .committing index
    { idle := ⟨h.idle.seekOffset, h.idle.nextRequest, h.idle.queue, h.idle.worker⟩
      autoCommit := h.autoCommit
      commits := h.commits
      fetch := ?_
      others := fun other found hother hfound => ?_ }⟩
  · obtain ⟨leads, applied, hindex, hstored⟩ := h.fetch
    have hlength := (List.getElem?_eq_some_iff.mp hindex).1
    exact ⟨leads, applied, (List.getElem?_append_left hlength).trans hindex, hstored⟩
  · cases Nat.lt_or_ge other state.fetches.length with
    | inl hlt =>
        exact h.others other found hother ((List.getElem?_append_left hlt).symm.trans hfound)
    | inr hge =>
        rw [List.getElem?_append_right hge] at hfound
        rw [List.mem_singleton.mp (List.mem_of_getElem? hfound)]
        trivial

/-- The coordinator applies the commit of the seek. -/
theorem Committing.applied (h : Committing state index) {offset : Int}
    (hfetch : state.fetches[place]? = some ⟨leads, .committing offset false⟩) :
    Follows state ({ state with stored := offset }.setPhase place leads
      (.committing offset true)) := by
  obtain ⟨rfl, rfl, -⟩ := h.eq hfetch
  refine ⟨rfl, rfl, .committing place
    { idle := ⟨h.idle.seekOffset, h.idle.nextRequest, h.idle.queue, h.idle.worker⟩
      autoCommit := h.autoCommit
      commits := h.commits
      fetch := ⟨leads, true, ?_, fun _ => rfl⟩
      others := fun other found hother hfound => ?_ }⟩
  · exact List.getElem?_set_self (List.getElem?_eq_some_iff.mp hfetch).1
  · exact h.others other found hother ((List.getElem?_set_ne hother.symm).symm.trans hfound)

/-- A request that another fetch computes meanwhile does not have the partition. -/
theorem Committing.buildRequest (h : Committing state index)
    (hundisturbed : Undisturbed state (.build place))
    (hfetch : state.fetches[place]? = some ⟨leads, .ready⟩) :
    Follows state (state.buildRequest place leads) := by
  have hended : state.buildRequest place leads = state.setPhase place leads .ended := by
    unfold PartitionSeek.buildRequest
    cases hundisturbed h.seeking with
    | inl hnone => rw [if_neg (by simp [hnone])]
    | inr hleads =>
        have hfalse : leads = false := hleads _ hfetch
        rw [if_neg (by simp [hfalse])]
  rw [hended]
  exact h.setPhase (h.ne hfetch rfl) trivial

/-- A seek that is committed goes on to take effect. -/
theorem Committing.step {event : Event} (h : Committing state index)
    (hundisturbed : Undisturbed state event) (hseek : ∀ offset, event ≠ .seek offset)
    (hfires : Fires state event next) : Follows state next := by
  cases hfires with
  | seek hoffset => exact absurd rfl (hseek _)
  | start leads => exact h.start leads
  | turn hfetch =>
      -- the entry is gone already
      rw [takeTurn_of_none h.idle.seekOffset]
      exact h.setPhase (h.ne hfetch rfl) trivial
  | seekApplied hfetch => exact h.applied hfetch
  | seekAnswered hfetch =>
      obtain ⟨rfl, rfl, hstored⟩ := h.eq hfetch
      exact h.answered (hstored rfl)
  | resolve hfetch =>
      rw [if_neg (by rw [hundisturbed h.seeking]; exact nofun)]
      exact h.setPhase (h.ne hfetch rfl) trivial
  | build hfetch => exact h.buildRequest hundisturbed hfetch
  | resolveApplied hfetch | resolveAnswered hfetch | send hfetch | responds hfetch =>
      cases h.others _ _ (h.ne hfetch rfl) hfetch
  | fails hfetch => exact h.setPhase (h.ne hfetch (hundisturbed _ hfetch)) trivial
  | handleBatch hworker hqueue => cases h.idle.queue.symm.trans hqueue
  | nextMessage hworker | handlerReturns hworker | throws hworker | settled hworker =>
      cases h.idle.worker.symm.trans hworker
  | autoCommitOffsets hautoCommit =>
      rw [hundisturbed h.seeking]
      exact ⟨rfl, rfl, .committing index
        { idle := ⟨h.idle.seekOffset, h.idle.nextRequest, h.idle.queue, h.idle.worker⟩
          autoCommit := h.autoCommit
          commits := (List.append_nil _).trans h.commits
          fetch := h.fetch
          others := h.others }⟩
  | commitApplied hcommit | commitAnswered hcommit =>
      rw [h.commits] at hcommit
      cases hcommit
  | commitFails hcommit =>
      rw [h.commits] at hcommit
      cases hcommit

/-! ## The seek has taken effect -/

/-- A fetch goes on without a request for the partition. -/
theorem Effective.setPhase (h : Effective state)
    (hnew : BeforeRequest state.autoCommit state.sought ⟨leads, phase⟩) :
    Follows state (state.setPhase index leads phase) :=
  ⟨rfl, rfl, .effective
    { idle := ⟨h.idle.seekOffset, h.idle.nextRequest, h.idle.queue, h.idle.worker⟩
      positioned := ⟨h.positioned.committed, h.positioned.resolved⟩
      fetches := forall_setPhase h.fetches hnew }⟩

/-- A committed offset is the one sought. -/
theorem Positioned.committedOffset (h : Positioned state) (hautoCommit : state.autoCommit = true)
    (hsome : state.committedOffset.isSome = true) :
    state.committedOffset = some state.sought := by
  obtain ⟨-, -, hcommitted, -⟩ := h.committed hautoCommit
  cases hcommitted with
  | inl hnone =>
      rw [hnone] at hsome
      cases hsome
  | inr hsought => exact hsought

/-- The position that `nextOffset` finds or copies is the offset sought. -/
theorem Positioned.position (h : Positioned state)
    (hsome : state.committedOffset.isSome = true) :
    (state.resolvedOffset <|> state.committedOffset) = some state.sought := by
  cases hautoCommit : state.autoCommit with
  | false =>
      rw [h.resolved hautoCommit]
      rfl
  | true =>
      obtain ⟨-, -, -, hresolved⟩ := h.committed hautoCommit
      cases hresolved with
      | inl hnone =>
          rw [hnone, h.committedOffset hautoCommit hsome]
          rfl
      | inr hsought =>
          rw [hsought.1]
          rfl

/-- The next offset is the committed one, which is the one sought. -/
theorem Positioned.nextOffset (h : Positioned state) (hnonneg : 0 ≤ state.sought)
    (hsome : state.committedOffset.isSome = true) :
    state.nextOffset =
      ({ state with resolvedOffset := some state.sought }, state.sought) := by
  have hvalid : isInvalid (some state.sought) = false := by simpa [isInvalid] using hnonneg
  rw [PartitionSeek.nextOffset, h.position hsome]
  simp [hvalid]

/-- The request carries the offset sought. -/
theorem Effective.buildRequest (h : Effective state) (hnonneg : 0 ≤ state.sought)
    (index : Nat) (leads : Bool) : Follows state (state.buildRequest index leads) := by
  unfold PartitionSeek.buildRequest
  split
  · next hrequests =>
      rw [h.positioned.nextOffset hnonneg hrequests.2]
      refine ⟨rfl, rfl, .effective
        { idle := ⟨h.idle.seekOffset, h.idle.nextRequest, h.idle.queue, h.idle.worker⟩
          positioned := ⟨fun hautoCommit => ?_, fun _ => rfl⟩
          fetches := forall_setPhase h.fetches ⟨rfl, rfl⟩ }⟩
      obtain ⟨hcommits, hstored, hold, -⟩ := h.positioned.committed hautoCommit
      exact ⟨hcommits, hstored, hold,
        .inr ⟨rfl, h.positioned.committedOffset hautoCommit hrequests.2⟩⟩
  · exact h.setPhase trivial

/-- The first request since the seek. -/
theorem Effective.send (h : Effective state) {offset : Int} {before : Bool}
    (hfetch : state.fetches[index]? = some ⟨leads, .built offset before⟩) :
    Follows state ({ state with nextRequest := state.nextRequest <|> some offset }.setPhase index
      leads (.sent before)) := by
  obtain ⟨rfl, rfl⟩ := h.fetches _ (List.mem_of_getElem? hfetch)
  have hafter : ∀ fetch ∈ state.fetches, AfterRequest fetch := by
    intro fetch hmem
    have hbefore := h.fetches fetch hmem
    obtain ⟨leads, phase⟩ := fetch
    cases phase with
    | begun | passed | resolving | ready | ended => trivial
    | built => exact hbefore.2
    | committing | sent => cases hbefore
  refine ⟨rfl, rfl, .carried
    { seekOffset := h.idle.seekOffset
      nextRequest := ?_
      fetches := forall_setPhase hafter rfl
      queue := fun batch hmem => ?_
      worker := fun worker hmem => ?_ }⟩
  · show (state.nextRequest <|> some state.sought) = some state.sought
    rw [h.idle.nextRequest]
    rfl
  · have hqueue : batch ∈ state.queue := hmem
    rw [h.idle.queue] at hqueue
    cases hqueue
  · have hworker : state.worker = some worker := hmem
    rw [h.idle.worker] at hworker
    cases hworker

/-- Nothing is left to commit until the offset sought has been requested. -/
theorem Positioned.uncommittedOffset (h : Positioned state) (hautoCommit : state.autoCommit = true) :
    state.uncommittedOffset = none := by
  obtain ⟨-, -, -, hresolved⟩ := h.committed hautoCommit
  unfold PartitionSeek.uncommittedOffset
  cases hresolved with
  | inl hnone => rw [hnone]
  | inr hsome =>
      rw [hsome.1, hsome.2]
      exact if_pos (.inl rfl)

/-- The coordinator answers with the offset sought, which is the committed offset from then on. -/
theorem Effective.resolveAnswered (h : Effective state) (hnonneg : 0 ≤ state.sought)
    {stored : Int} (default : Int)
    (hfetch : state.fetches[index]? = some ⟨leads, .resolving (some stored)⟩) :
    Follows state ({ state with
      committedOffset := some (if stored < 0 then default else stored) }.setPhase index leads
        .ready) := by
  refine ⟨rfl, rfl, .effective
    { idle := ⟨h.idle.seekOffset, h.idle.nextRequest, h.idle.queue, h.idle.worker⟩
      positioned := ⟨fun hautoCommit => ?_, h.positioned.resolved⟩
      fetches := forall_setPhase h.fetches trivial }⟩
  obtain ⟨hcommits, hstored, -, hresolved⟩ := h.positioned.committed hautoCommit
  have hsought : stored = state.sought := by
    cases h.fetches _ (List.mem_of_getElem? hfetch) hautoCommit with
    | inl hnone => cases hnone
    | inr hsome => exact Option.some.inj hsome
  have hcommitted : some (if stored < 0 then default else stored) = some state.sought := by
    rw [hsought, if_neg (Int.not_lt.mpr hnonneg)]
  refine ⟨hcommits, hstored, .inr hcommitted, ?_⟩
  cases hresolved with
  | inl hnone => exact .inl hnone
  | inr hsome => exact .inr ⟨hsome.1, hcommitted⟩

/-- Without auto-commit, whatever the commits in flight do is of no consequence. -/
theorem Effective.of_manual (h : Effective state) (hmanual : state.autoCommit = false)
    (stored : Int) (committedOffset : Option Int) (commits : List SeekCommit) :
    Follows state { state with
      stored := stored, committedOffset := committedOffset, commits := commits } :=
  ⟨rfl, rfl, .effective
    { idle := ⟨h.idle.seekOffset, h.idle.nextRequest, h.idle.queue, h.idle.worker⟩
      positioned := ⟨fun htrue => absurd (hmanual.symm.trans htrue) nofun, h.positioned.resolved⟩
      fetches := h.fetches }⟩

/-- With auto-commit, no commit is in flight. -/
theorem Effective.manual (h : Effective state) (hcommits : state.commits ≠ []) :
    state.autoCommit = false :=
  Bool.not_eq_true _ ▸ fun htrue => hcommits (h.positioned.committed htrue).1

/-- A seek that has taken effect is requested next. -/
theorem Effective.step {event : Event} (h : Effective state) (hnonneg : 0 ≤ state.sought)
    (hseek : ∀ offset, event ≠ .seek offset) (hfires : Fires state event next) :
    Follows state next := by
  cases hfires with
  | seek hoffset => exact absurd rfl (hseek _)
  | start leads =>
      exact ⟨rfl, rfl, .effective
        { idle := ⟨h.idle.seekOffset, h.idle.nextRequest, h.idle.queue, h.idle.worker⟩
          positioned := ⟨h.positioned.committed, h.positioned.resolved⟩
          fetches := forall_start h.fetches trivial }⟩
  | turn hfetch =>
      rw [takeTurn_of_none h.idle.seekOffset]
      exact h.setPhase trivial
  | seekApplied hfetch | seekAnswered hfetch | responds hfetch =>
      cases h.fetches _ (List.mem_of_getElem? hfetch)
  | resolve hfetch =>
      split
      · exact h.setPhase fun _ => .inl rfl
      · exact h.setPhase trivial
  | resolveApplied hfetch =>
      -- the coordinator has the offset sought
      refine h.setPhase fun hautoCommit => .inr ?_
      rw [(h.positioned.committed hautoCommit).2.1]
  | resolveAnswered hfetch => exact h.resolveAnswered hnonneg _ hfetch
  | build hfetch => exact h.buildRequest hnonneg _ _
  | send hfetch => exact h.send hfetch
  | fails hfetch => exact h.setPhase trivial
  | handleBatch hworker hqueue => cases h.idle.queue.symm.trans hqueue
  | nextMessage hworker | handlerReturns hworker | throws hworker | settled hworker =>
      cases h.idle.worker.symm.trans hworker
  | autoCommitOffsets hautoCommit =>
      rw [h.positioned.uncommittedOffset hautoCommit]
      obtain ⟨hcommits, hpositions⟩ := h.positioned.committed hautoCommit
      exact ⟨rfl, rfl, .effective
        { idle := ⟨h.idle.seekOffset, h.idle.nextRequest, h.idle.queue, h.idle.worker⟩
          positioned :=
            ⟨fun _ => ⟨(List.append_nil _).trans hcommits, hpositions⟩, h.positioned.resolved⟩
          fetches := h.fetches }⟩
  | commitApplied hcommit | commitAnswered hcommit =>
      exact h.of_manual (h.manual (List.ne_nil_of_mem (List.mem_of_getElem? hcommit))) _ _ _
  | commitFails hcommit =>
      exact h.of_manual (h.manual (List.ne_nil_of_length_pos (Nat.zero_lt_of_lt hcommit))) _ _ _

/-! ## The offset sought has been requested -/

/-- Another fetch after the request. -/
theorem Carried.setPhase (h : Carried state) (hnew : AfterRequest ⟨leads, phase⟩) :
    Follows state (state.setPhase index leads phase) :=
  ⟨rfl, rfl, .carried
    ⟨h.seekOffset, h.nextRequest, forall_setPhase h.fetches hnew, h.queue, h.worker⟩⟩

/-- The worker takes a batch, which is not older than the seek. -/
theorem Carried.handleBatch (h : Carried state) {batch : SeekBatch} {queue : List SeekBatch}
    (hqueue : state.queue = batch :: queue) : Follows state (state.handleBatch batch queue) := by
  have hbatch : batch.before = false := h.queue batch (hqueue ▸ List.mem_cons_self)
  have hrest : ∀ other ∈ queue, other.before = false :=
    fun other hmem => h.queue other (hqueue ▸ List.mem_cons_of_mem _ hmem)
  unfold PartitionSeek.handleBatch
  split
  · refine ⟨rfl, rfl, .carried
      ⟨h.seekOffset, h.nextRequest, h.fetches, hrest, fun worker hmem => ?_⟩⟩
    cases hmem
    exact hbatch
  · refine ⟨rfl, rfl, .carried
      ⟨h.seekOffset, h.nextRequest, h.fetches, hrest, fun worker hmem => ?_⟩⟩
    cases hmem
    exact hbatch

/-- The worker has no older batch, so it passes no older message. -/
theorem Carried.nextMessage (h : Carried state) {rest : List Int} {before : Bool}
    (hworker : state.worker = some ⟨.top rest, before⟩) :
    Follows state (state.nextMessage ⟨.top rest, before⟩ rest) := by
  have hbefore : before = false := h.worker _ hworker
  subst hbefore
  unfold PartitionSeek.nextMessage
  cases rest with
  | nil => exact ⟨rfl, rfl, .carried ⟨h.seekOffset, h.nextRequest, h.fetches, h.queue, nofun⟩⟩
  | cons message rest =>
      dsimp only
      split
      · exact ⟨rfl, rfl, .carried ⟨h.seekOffset, h.nextRequest, h.fetches, h.queue, nofun⟩⟩
      · refine ⟨rfl, List.append_nil _, .carried
          ⟨h.seekOffset, h.nextRequest, h.fetches, h.queue, fun worker hmem => ?_⟩⟩
        cases hmem
        rfl

/-- A response to a request that was computed after the seek. -/
theorem Carried.responds (h : Carried state) {before : Bool}
    (hfetch : state.fetches[index]? = some ⟨leads, .sent before⟩) (messages : List Int)
    (filtered : Option Int) :
    Follows state ({ state with
      queue := if state.seekOffset.isSome then state.queue
        else state.queue ++ [SeekBatch.mk messages filtered before] }.setPhase index leads
          .ended) := by
  have hbefore : before = false := h.fetches _ (List.mem_of_getElem? hfetch)
  refine ⟨rfl, rfl, .carried
    ⟨h.seekOffset, h.nextRequest, forall_setPhase h.fetches trivial, fun batch hmem => ?_,
      h.worker⟩⟩
  have hqueue : batch ∈ if state.seekOffset.isSome then state.queue
      else state.queue ++ [SeekBatch.mk messages filtered before] := hmem
  rw [h.seekOffset] at hqueue
  cases List.mem_append.mp hqueue with
  | inl hold => exact h.queue batch hold
  | inr hnew =>
      rw [List.mem_singleton.mp hnew]
      exact hbefore

/-- The worker goes on with the batch that it has. -/
theorem Carried.goesOn (h : Carried state) {old new : WorkerPhase} {before : Bool}
    (hworker : state.worker = some ⟨old, before⟩) (resolvedOffset : Option Int) :
    Follows state { state with
      resolvedOffset := resolvedOffset
      worker := some ⟨new, before⟩ } := by
  have hbefore : before = false := h.worker _ hworker
  refine ⟨rfl, rfl, .carried
    ⟨h.seekOffset, h.nextRequest, h.fetches, h.queue, fun worker hmem => ?_⟩⟩
  cases hmem
  exact hbefore

/-- Once the seek was requested, no fetch is older. -/
theorem Carried.step {event : Event} (h : Carried state) (hseek : ∀ offset, event ≠ .seek offset)
    (hfires : Fires state event next) : Follows state next := by
  cases hfires with
  | seek hoffset => exact absurd rfl (hseek _)
  | start leads =>
      exact ⟨rfl, rfl, .carried
        ⟨h.seekOffset, h.nextRequest, forall_start h.fetches trivial, h.queue, h.worker⟩⟩
  | turn hfetch =>
      rw [takeTurn_of_none h.seekOffset]
      exact h.setPhase trivial
  | seekApplied hfetch | seekAnswered hfetch =>
      cases h.fetches _ (List.mem_of_getElem? hfetch)
  | resolve hfetch =>
      split
      · exact h.setPhase trivial
      · exact h.setPhase trivial
  | resolveApplied hfetch | fails hfetch => exact h.setPhase trivial
  | resolveAnswered hfetch =>
      exact ⟨rfl, rfl, .carried
        ⟨h.seekOffset, h.nextRequest, forall_setPhase h.fetches trivial, h.queue, h.worker⟩⟩
  | build hfetch =>
      unfold PartitionSeek.buildRequest
      split
      · exact ⟨rfl, rfl, .carried
          ⟨h.seekOffset, h.nextRequest, forall_setPhase h.fetches rfl, h.queue, h.worker⟩⟩
      · exact h.setPhase trivial
  | @send index leads offset before hfetch =>
      have hbefore : before = false := h.fetches _ (List.mem_of_getElem? hfetch)
      refine ⟨rfl, rfl, .carried
        ⟨h.seekOffset, ?_, forall_setPhase h.fetches hbefore, h.queue, h.worker⟩⟩
      show (state.nextRequest <|> some offset) = some state.sought
      rw [h.nextRequest]
      rfl
  | responds hfetch => exact h.responds hfetch _ _
  | handleBatch hworker hqueue => exact h.handleBatch hqueue
  | nextMessage hworker => exact h.nextMessage hworker
  | handlerReturns hworker => exact h.goesOn hworker _
  | settled hworker => exact h.goesOn hworker _
  | throws hworker =>
      exact ⟨rfl, rfl, .carried ⟨h.seekOffset, h.nextRequest, h.fetches, h.queue, nofun⟩⟩
  | autoCommitOffsets | commitApplied | commitAnswered | commitFails =>
      exact ⟨rfl, rfl, .carried ⟨h.seekOffset, h.nextRequest, h.fetches, h.queue, h.worker⟩⟩

/-! ## Runs after a seek -/

/-- Every undisturbed event takes the seek to its next stage or leaves it. -/
theorem Sound.step {event : Event} (h : Sound state) (hundisturbed : Undisturbed state event)
    (hfires : Fires state event next) : Sound next := by
  by_cases hseek : ∀ offset, event ≠ .seek offset
  · have hfollows : Follows state next := by
      cases h.stage with
      | pending hpending => exact hpending.step hundisturbed hseek hfires
      | committing index hcommitting => exact hcommitting.step hundisturbed hseek hfires
      | effective heffective => exact heffective.step h.nonneg hseek hfires
      | carried hcarried => exact hcarried.step hseek hfires
    exact
      { nonneg := by
          rw [hfollows.sought]
          exact h.nonneg
        passed := hfollows.passed.trans h.passed
        stage := hfollows.stage }
  · -- a later seek begins anew
    obtain ⟨offset, hevent⟩ := not_forall.mp hseek
    obtain rfl := not_not.mp hevent
    cases hfires with
    | seek hoffset => exact Sound.seek hundisturbed hoffset

/-- In a sound state the seek is kept. -/
theorem Sound.kept (h : Sound state) : Kept state where
  passed := h.passed
  nextRequest offset hmem := by
    have hnone : state.nextRequest = none → offset = state.sought := by
      intro hnone
      rw [hnone] at hmem
      cases hmem
    cases h.stage with
    | pending hpending => exact hnone hpending.nextRequest
    | committing index hcommitting => exact hnone hcommitting.idle.nextRequest
    | effective heffective => exact hnone heffective.idle.nextRequest
    | carried hcarried => exact Option.some.inj (hmem.symm.trans hcarried.nextRequest)

/-- A seek that is made while no fetch prepares a request, is popped while nothing else of the
partition is going on, and is committed successfully without anything in between, is neither lost
nor overridden: no message fetched before it is passed to the handler any more, and the next
request carries its offset. This holds from any state on. -/
theorem kept_of_undisturbed {offset : Int} {events : List Event} {final : PartitionSeek}
    (hundisturbed : Meets step Undisturbed state (.seek offset :: events))
    (hrun : run step state (.seek offset :: events) = some final) : final.Kept := by
  obtain ⟨next, hstep, hrest⟩ := run_cons_eq_some.mp hrun
  obtain ⟨hpreparing, hmeets⟩ := (meets_cons hstep).mp hundisturbed
  have hsound : Sound next := by
    cases fires_of_step hstep with
    | seek hoffset => exact Sound.seek hpreparing hoffset
  exact (invariant_of_meets
    (fun _ _ _ h hundisturbed hstep => h.step hundisturbed (fires_of_step hstep)) hsound
    hmeets hrest).kept

/-- The handler has message 5 of a batch with another message, and a request is in flight. -/
def consuming : PartitionSeek :=
  { autoCommit := true
    stored := 4
    committedOffset := some 4
    resolvedOffset := some 5
    seekOffset := none
    fetches := [⟨true, .sent false⟩]
    queue := []
    worker := some ⟨.handler 5 [6], false⟩
    commits := []
    sought := 0
    nextRequest := none
    passed := [] }

/-- The partition has moved to another node, whose fetch pops the seek. -/
def seekThenMove : List Event :=
  [.seek 2, .handlerReturns, .autoCommitOffsets, .commitApplied 0, .commitAnswered 0, .settled,
    .responds 0 [7, 8] none, .nextMessage, .start true, .turn 1, .seekApplied 1, .seekAnswered 1,
    .resolve 1, .resolveApplied 1, .resolveAnswered 1 0, .build 1, .send 1]

/-- A seek before the partition moves to another node is kept. -/
theorem kept_seekThenMove : ∃ final, run step consuming seekThenMove = some final ∧
    final.nextRequest = some 2 ∧ final.Kept := by
  have hrequest : (run step consuming seekThenMove).map nextRequest = some (some 2) := by decide
  obtain ⟨final, hrun, hfinal⟩ := Option.map_eq_some_iff.mp hrequest
  exact ⟨final, hrun, hfinal, kept_of_undisturbed (by decide) hrun⟩

/-- The commit of the seek fails, for instance because the connection is closed, and the fetcher
starts its next fetch. -/
def failedCommit : List Event :=
  [.seek 2, .handlerReturns, .settled, .responds 0 [7, 8] none, .nextMessage, .start true, .turn 1,
    .fails 1, .start true, .turn 2, .resolve 2, .build 2, .send 2]

/-- A seek whose commit fails is lost. -/
theorem lost_failedCommit : ∃ final, run step consuming failedCommit = some final ∧
    final.sought = 2 ∧ final.nextRequest = some 6 ∧ ¬ final.Kept := by
  refine ⟨_, rfl, rfl, rfl, fun hkept => ?_⟩
  exact absurd (hkept.nextRequest 6 rfl) (by decide)

end KafkaJs.Consumer.PartitionSeek
