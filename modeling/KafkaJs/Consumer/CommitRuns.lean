import KafkaJs.Consumer.UncommittedOffsets
import KafkaJs.Execution.Run

/-!
# Runs with commits

A run interleaves the calls of an offset manager with the answers to them. Beside the offset manager
a state has the numbers last committed or fetched. `Keeps` is the condition on a step under which
the map of committed offsets still tells them, and `uncommittedOffsets_exact` says that a run of
such steps only leads to states in which the right offsets are listed.
-/

namespace KafkaJs.Consumer

open Data Cluster

namespace OffsetManager

/-- A call that waits for its answer. Of a commit it is known whether it is automatic and no offset
was resolved since. -/
inductive Call where
  | commit (topics : OffsetTopics) (undisturbed : Bool)
  | seek (topic : String) (partition offset : Int)
  | resolve

/-- An offset is resolved while the call waits. -/
def Call.disturb : Call → Call
  | .commit topics _ => .commit topics false
  | call => call

/-- An offset manager with the calls that wait, in the order in which they were made. -/
structure Tracked where
  manager : OffsetManager
  waiting : List Call
  /-- The offset that was last committed or fetched. -/
  last : String × Int → Option Int

/-- A call, or what comes of the call at the place in the list of those that wait. -/
inductive Event where
  | resolveOffset (topic : String) (partition offset : Int)
  | commitOffsets (offsets : Option OffsetTopics)
  | seek (topic : String) (partition offset : Int)
  | resolveOffsets
  | answered (index : Nat)
  | fetched (index : Nat) (view : ClusterView) (listOffsets : ListOffsets)
      (consumerOffsets : TopicPartitions)
  | failed (index : Nat)

namespace Tracked

/-- A new offset manager. -/
def start (manager : OffsetManager) : Tracked :=
  { manager := manager, waiting := [], last := fun _ => none }

/-- A call waits. -/
def wait (state : Tracked) (call : Call) : Tracked :=
  { state with waiting := state.waiting ++ [call] }

/-- A call has ended. -/
def settle (state : Tracked) (index : Nat) : Tracked :=
  { state with waiting := state.waiting.eraseIdx index }

/-- An offset is resolved. -/
def resolving (state : Tracked) (manager : OffsetManager) : Tracked :=
  { state with manager := manager, waiting := state.waiting.map Call.disturb }

/-- What `commitOffsets` does with the answer. -/
def committing (state : Tracked) (topics : OffsetTopics) : Tracked :=
  { state with
    manager := state.manager.markCommitted topics
    last := assigned state.last
      ((ungrouped topics).map fun entry => (entry.1, some entry.2.value)) }

/-- What `seek` does with the answer. -/
def seeking (state : Tracked) (topic : String) (partition offset : Int) : Tracked :=
  { state with
    manager := state.manager.clearOffsets topic partition
    last := Function.update state.last (topic, partition) (some offset) }

/-- What `resolveOffsets` does with the answers. -/
def fetching (state : Tracked) (offsets : List (String × List (Int × Option Int))) : Tracked :=
  { state with
    manager := state.manager.storeOffsets offsets
    last := assigned state.last (ungrouped offsets) }

/-- One step. A call that throws before it waits changes nothing. -/
def step (state : Tracked) : Event → Option Tracked
  | .resolveOffset topic partition offset =>
      some (if topic ∈ state.manager.topics then
          state.resolving (state.manager.resolveOffset topic partition offset)
        else state)
  | .commitOffsets offsets =>
      match state.manager.commitOffsets offsets with
      | .ok (.commits topics) => some (state.wait (.commit topics offsets.isNone))
      | _ => some state
  | .seek topic partition offset =>
      match state.manager.seek topic partition offset with
      | .returned manager =>
          some (if state.manager.isAssigned topic partition = true then state.resolving manager
            else state)
      | .commits _ => some (state.wait (.seek topic partition offset))
  | .resolveOffsets =>
      some (if state.manager.pendingPartitions = [] then state else state.wait .resolve)
  | .answered index =>
      match state.waiting[index]? with
      | some (.commit topics _) => some ((state.settle index).committing topics)
      | some (.seek topic partition offset) =>
          some ((state.settle index).seeking topic partition offset)
      | _ => none
  | .fetched index view listOffsets consumerOffsets =>
      match state.waiting[index]? with
      | some .resolve =>
          match state.manager.initialOffsets view listOffsets consumerOffsets with
          | .ok offsets => some ((state.settle index).fetching offsets)
          | .error _ => some (state.settle index)
      | _ => none
  | .failed index => if index < state.waiting.length then some (state.settle index) else none

/-- The partition has this resolved offset, which is not negative. -/
def Resolved (state : Tracked) (topic : String) (partition value : Int) : Prop :=
  0 ≤ value ∧
    (state.manager.resolvedOffsets topic).get? partition = some (some (.ofInt value))

/-- `uncommittedOffsets` lists exactly the partitions with a resolved offset that is not negative
and another number than the one last committed or fetched, each of them once. -/
def ListsUncommitted (state : Tracked) : Prop :=
  ∃ listed, state.manager.uncommittedOffsets = .ok listed ∧
    ((ungrouped listed).map Prod.fst).Nodup ∧
    ∀ topic partition offset, ListsAt listed topic partition offset ↔
      state.manager.resolvedOffset topic partition = some offset ∧ 0 ≤ offset.value ∧
        state.last (topic, partition) ≠ some offset.value

/-- With this event an automatic commit succeeds, and no offset was resolved since it was called. -/
def Completes (state : Tracked) : Event → Prop
  | .answered index => ∃ topics, state.waiting[index]? = some (.commit topics true)
  | .commitOffsets offsets =>
      offsets = none ∧ ∃ manager, state.manager.commitOffsets none = .ok (.returned manager)
  | _ => False

/-- If the number is the one last committed or fetched, then the map of committed offsets has it as
a string. -/
def Marked (state : Tracked) (topic : String) (partition value : Int) : Prop :=
  0 ≤ value → state.last (topic, partition) = some value →
    state.manager.committedOffsets (topic, partition) = some (.ofInt value)

/-- An offset may be stored as committed: if it is the resolved one, then as a string, and if an
undisturbed commit has left the partition out, then it is the resolved one. -/
def Stores (state : Tracked) (topic : String) (partition : Int) (offset : Option Offset) : Prop :=
  ∀ value, state.Resolved topic partition value →
    (offset.map Offset.value = some value ∨
      (∃ topics, .commit topics true ∈ state.waiting ∧
        lastListed topics (topic, partition) = none) →
      offset = some (.ofInt value))

/-- The condition on a step. -/
def Keeps (state : Tracked) : Event → Prop
  | .resolveOffset topic partition offset =>
      topic ∈ state.manager.topics → state.Marked topic partition (offset + 1)
  | .seek topic partition offset =>
      state.manager.isAssigned topic partition = true → state.manager.autoCommit = false →
        state.Marked topic partition offset
  | .answered index =>
      ∀ topics undisturbed, state.waiting[index]? = some (.commit topics undisturbed) →
        ∀ topic partition offset, lastListed topics (topic, partition) = some offset →
          state.Stores topic partition (some offset)
  | .fetched _ view listOffsets consumerOffsets =>
      ∀ offsets, state.manager.initialOffsets view listOffsets consumerOffsets = .ok offsets →
        ∀ topic partition offset, lastListed offsets (topic, partition) = some offset →
          state.Stores topic partition (offset.map Offset.ofInt)
  | _ => True

/-! ## The invariant -/

/-- The offsets to commit are the resolved ones, without some that are already committed. -/
def Covers (state : Tracked) (topics : OffsetTopics) : Prop :=
  ∀ topic partition value, state.Resolved topic partition value →
    lastListed topics (topic, partition) = some (.ofInt value) ∨
      lastListed topics (topic, partition) = none ∧
        state.manager.committedOffsets (topic, partition) = some (.ofInt value)

/-- What holds in the states that are reached by steps that keep the condition. -/
structure Aligned (state : Tracked) : Prop where
  strings : ∀ topic partition offset,
    (state.manager.resolvedOffsets topic).get? partition = some offset →
      topic ∈ state.manager.topics ∧ ∃ value, offset = some (.ofInt value)
  known : ∀ place offset, state.manager.committedOffsets place = some offset →
    state.last place = some offset.value
  marked : ∀ topic partition value, state.Resolved topic partition value →
    state.Marked topic partition value
  waits : ∀ topics, .commit topics true ∈ state.waiting → state.Covers topics

variable {state next : Tracked} {topic : String} {partition value : Int} {offset : Option Offset}

/-- A new offset manager is aligned. -/
theorem aligned_start (autoCommit : Bool) (memberAssignment : MemberTopics)
    (topicConfigurations : String → Option Bool) :
    (start (create autoCommit memberAssignment topicConfigurations)).Aligned where
  strings _ _ _ h := nomatch h
  known _ _ h := nomatch h
  marked _ _ _ h := nomatch h.2
  waits _ h := absurd h List.not_mem_nil

/-- A partition has one resolved offset. -/
theorem Resolved.unique {other : Int} (h : state.Resolved topic partition value)
    (hother : state.Resolved topic partition other) : value = other := by
  cases h.2.symm.trans hother.2
  rfl

/-- What an aligned manager lists as uncommitted. -/
theorem Aligned.listed (h : state.Aligned) :
    ∃ listed, state.manager.uncommittedOffsets = .ok listed ∧
      ((ungrouped listed).map Prod.fst).Nodup ∧ (∀ entry ∈ listed, entry.2 ≠ []) ∧
      ∀ topic partition offset, ListsAt listed topic partition offset ↔
        ∃ value, offset = .ofInt value ∧ state.Resolved topic partition value ∧
          state.last (topic, partition) ≠ some value := by
  obtain ⟨listed, hlisted, hnodup, hnonempty, hlists⟩ :=
    @uncommittedOffsets_ok state.manager fun topic partition hnone => by
      obtain ⟨_, value, hvalue⟩ := h.strings topic partition none hnone
      cases hvalue
  refine ⟨listed, hlisted, hnodup, hnonempty, fun topic partition offset => ?_⟩
  rw [hlists]
  constructor
  · intro hoffset
    obtain ⟨_, hget, hcommitted, hvalid⟩ := hoffset
    obtain ⟨_, value, hvalue⟩ := h.strings topic partition (some offset) hget
    cases hvalue
    refine ⟨value, rfl, ⟨hvalid, hget⟩, fun hlast => hcommitted ?_⟩
    exact h.marked topic partition value ⟨hvalid, hget⟩ hvalid hlast
  · intro hoffset
    obtain ⟨value, rfl, hresolved, hlast⟩ := hoffset
    refine ⟨(h.strings topic partition _ hresolved.2).1, hresolved.2, fun hcommitted => ?_,
      hresolved.1⟩
    exact hlast (h.known _ _ hcommitted)

/-- An aligned manager lists exactly the offsets that differ from the last ones. -/
theorem Aligned.listsUncommitted (h : state.Aligned) : state.ListsUncommitted := by
  obtain ⟨listed, hlisted, hnodup, _, hlists⟩ := h.listed
  refine ⟨listed, hlisted, hnodup, fun topic partition offset => (hlists _ _ _).trans ?_⟩
  rw [resolvedOffset]
  constructor
  · intro hoffset
    obtain ⟨value, rfl, hresolved, hlast⟩ := hoffset
    exact ⟨by rw [hresolved.2]; rfl, hresolved.1, hlast⟩
  · intro hoffset
    obtain ⟨hget, hvalid, hlast⟩ := hoffset
    have hstored := Option.join_eq_some_iff.mp hget
    obtain ⟨_, value, hvalue⟩ := h.strings topic partition _ hstored
    cases hvalue
    exact ⟨value, rfl, ⟨hvalid, hstored⟩, hlast⟩

/-- Nothing is listed once the last number is the resolved one everywhere. -/
theorem Aligned.listsNothing (h : state.Aligned)
    (hlast : ∀ topic partition value, state.Resolved topic partition value →
      state.last (topic, partition) = some value) :
    state.manager.uncommittedOffsets = .ok [] := by
  obtain ⟨listed, hlisted, _, hnonempty, hlists⟩ := h.listed
  rw [hlisted]
  refine congrArg Except.ok (List.eq_nil_iff_forall_not_mem.mpr fun entry hentry => ?_)
  obtain ⟨pair, hpair⟩ := List.exists_mem_of_ne_nil _ (hnonempty entry hentry)
  obtain ⟨value, _, hresolved, hne⟩ := (hlists _ _ _).mp ⟨entry.2, hentry, hpair⟩
  exact hne (hlast _ _ value hresolved)

/-- What an aligned manager lists covers the resolved offsets. -/
theorem Aligned.covers (h : state.Aligned) {listed : OffsetTopics}
    (hlisted : state.manager.uncommittedOffsets = .ok listed) : state.Covers listed := by
  intro topic partition value hresolved
  obtain ⟨_, hsame, _, _, hlists⟩ := h.listed
  cases hlisted.symm.trans hsame
  cases hlast : lastListed listed (topic, partition) with
  | some offset =>
      obtain ⟨other, rfl, hother, _⟩ := (hlists _ _ _).mp (lists_of_lastListed hlast)
      rw [hresolved.unique hother]
      exact Or.inl rfl
  | none =>
      refine Or.inr ⟨rfl, h.marked topic partition value hresolved hresolved.1 ?_⟩
      by_contra hne
      obtain ⟨last, hfound⟩ := exists_lastListed
        ((hlists _ _ _).mpr ⟨value, rfl, hresolved, hne⟩)
      cases hlast.symm.trans hfound

/-! ## Its steps -/

/-- Resolving an offset that was marked keeps the manager aligned. -/
theorem aligned_resolving (h : state.Aligned) (htopic : topic ∈ state.manager.topics)
    (hmarked : state.Marked topic partition value) :
    (state.resolving
      (state.manager.setResolved topic partition (some (.ofInt value)))).Aligned := by
  have hget : ∀ other id, ((state.resolving (state.manager.setResolved topic partition
      (some (.ofInt value)))).manager.resolvedOffsets other).get? id =
        if (other, id) = (topic, partition) then some (some (.ofInt value))
        else (state.manager.resolvedOffsets other).get? id :=
    fun other id => get?_setResolved _ _ _ _ _ _
  constructor
  · intro other id stored hstored
    rw [hget] at hstored
    split at hstored
    · next heq =>
        cases heq
        exact ⟨htopic, value, (Option.some_inj.mp hstored).symm⟩
    · exact h.strings other id stored hstored
  · exact h.known
  · intro other id number hnumber
    obtain ⟨hvalid, hnumber⟩ := hnumber
    rw [hget] at hnumber
    split at hnumber
    · next heq =>
        cases heq
        cases hnumber
        exact hmarked
    · exact h.marked other id number ⟨hvalid, hnumber⟩
  -- No commit that waits is undisturbed.
  · intro topics hwaits
    obtain ⟨call, _, hcall⟩ := List.mem_map.mp hwaits
    cases call <;> cases hcall

/-- A call that waits keeps the manager aligned. -/
theorem aligned_wait (h : state.Aligned) {call : Call}
    (hcall : ∀ topics, call = .commit topics true → state.Covers topics) :
    (state.wait call).Aligned where
  strings := h.strings
  known := h.known
  marked := h.marked
  waits topics hwaits := by
    rcases List.mem_append.mp hwaits with hold | hnew
    · exact h.waits topics hold
    · exact hcall topics (List.mem_singleton.mp hnew).symm

/-- Calls end, and what becomes the committed offset of a partition may be stored there. -/
theorem aligned_stored (h : state.Aligned)
    (hassigned : next.manager.memberAssignment = state.manager.memberAssignment)
    (hresolved : next.manager.resolvedOffsets = state.manager.resolvedOffsets)
    (hwaiting : ∀ call ∈ next.waiting, call ∈ state.waiting)
    (hstored : ∀ topic partition,
      (∃ offset, next.manager.committedOffsets (topic, partition) = offset ∧
        next.last (topic, partition) = offset.map Offset.value ∧
        state.Stores topic partition offset) ∨
      next.manager.committedOffsets (topic, partition) =
          state.manager.committedOffsets (topic, partition) ∧
        next.last (topic, partition) = state.last (topic, partition)) :
    next.Aligned where
  strings topic partition offset hget := by
    rw [hresolved] at hget
    rw [topics, hassigned]
    exact h.strings topic partition offset hget
  known place offset hcommitted := by
    rcases hstored place.1 place.2 with ⟨stored, hstored, hlast, _⟩ | ⟨hkept, hlast⟩
    · rw [hlast, ← hstored, hcommitted]
      rfl
    · rw [hlast]
      exact h.known place offset (hkept ▸ hcommitted)
  marked topic partition value hvalue hvalid hlast := by
    have hvalue : state.Resolved topic partition value := ⟨hvalid, hresolved ▸ hvalue.2⟩
    rcases hstored topic partition with ⟨offset, hcommitted, hoffset, hstores⟩ | ⟨hkept, hsame⟩
    · rw [hcommitted]
      exact hstores value hvalue (Or.inl (hoffset.symm.trans hlast))
    · rw [hkept]
      exact h.marked topic partition value hvalue hvalid (hsame.symm.trans hlast)
  waits topics hwaits topic partition value hvalue := by
    have hvalue : state.Resolved topic partition value := ⟨hvalue.1, hresolved ▸ hvalue.2⟩
    have hwaits := hwaiting _ hwaits
    refine (h.waits topics hwaits topic partition value hvalue).imp id fun hleft => ⟨hleft.1, ?_⟩
    rcases hstored topic partition with ⟨offset, hcommitted, _, hstores⟩ | ⟨hkept, _⟩
    · rw [hcommitted]
      exact hstores value hvalue (Or.inr ⟨topics, hwaits, hleft.1⟩)
    · rw [hkept]
      exact hleft.2

/-- A call that has settled is gone. -/
theorem aligned_settle (h : state.Aligned) (index : Nat) : (state.settle index).Aligned :=
  aligned_stored h rfl rfl (fun _ => List.mem_of_mem_eraseIdx) fun _ _ => Or.inr ⟨rfl, rfl⟩

/-- The committed offsets after a commit. -/
theorem committedOffsets_committing (topics : OffsetTopics) (place : String × Int) :
    (state.committing topics).manager.committedOffsets place =
      ((lastListed topics place).map some).getD (state.manager.committedOffsets place) :=
  assigned_ungrouped some _ topics place

/-- The last offsets after a commit. -/
theorem last_committing (topics : OffsetTopics) (place : String × Int) :
    (state.committing topics).last place =
      ((lastListed topics place).map fun offset => some offset.value).getD (state.last place) :=
  assigned_ungrouped (fun offset : Offset => some offset.value) state.last topics place

/-- A commit of offsets that are stored keeps the manager aligned. -/
theorem aligned_committing (h : state.Aligned) (index : Nat) {topics : OffsetTopics}
    (hstores : ∀ topic partition offset, lastListed topics (topic, partition) = some offset →
      state.Stores topic partition (some offset)) :
    ((state.settle index).committing topics).Aligned := by
  refine aligned_stored h rfl rfl (fun _ => List.mem_of_mem_eraseIdx) fun topic partition => ?_
  rw [committedOffsets_committing, last_committing]
  cases hlast : lastListed topics (topic, partition) with
  | none => exact Or.inr ⟨rfl, rfl⟩
  | some offset => exact Or.inl ⟨some offset, rfl, rfl, hstores topic partition offset hlast⟩

/-- Fetching offsets that are stored keeps the manager aligned. -/
theorem aligned_fetching (h : state.Aligned) (index : Nat)
    {offsets : List (String × List (Int × Option Int))}
    (hstores : ∀ topic partition offset, lastListed offsets (topic, partition) = some offset →
      state.Stores topic partition (offset.map Offset.ofInt)) :
    ((state.settle index).fetching offsets).Aligned := by
  refine aligned_stored h rfl rfl (fun _ => List.mem_of_mem_eraseIdx) fun topic partition => ?_
  have hcommitted : ((state.settle index).fetching offsets).manager.committedOffsets
      (topic, partition) = ((lastListed offsets (topic, partition)).map
        (Option.map Offset.ofInt)).getD (state.manager.committedOffsets (topic, partition)) :=
    assigned_ungrouped _ _ offsets (topic, partition)
  have hlast : ((state.settle index).fetching offsets).last (topic, partition) =
      ((lastListed offsets (topic, partition)).map id).getD (state.last (topic, partition)) := by
    rw [← assigned_ungrouped]
    show assigned state.last (ungrouped offsets) _ = _
    exact congrArg (fun entries => assigned state.last entries _) (List.map_id _).symm
  rw [hcommitted, hlast]
  cases hfound : lastListed offsets (topic, partition) with
  | none => exact Or.inr ⟨rfl, rfl⟩
  | some offset =>
      refine Or.inl ⟨offset.map Offset.ofInt, rfl, ?_, hstores topic partition offset hfound⟩
      cases offset <;> rfl

/-- A seek in progress keeps the manager aligned. -/
theorem aligned_seeking (h : state.Aligned) (topic : String) (partition offset : Int) :
    (state.seeking topic partition offset).Aligned := by
  have hget : ∀ other id, ((state.seeking topic partition offset).manager.resolvedOffsets
      other).get? id = if (other, id) = (topic, partition) then none
        else (state.manager.resolvedOffsets other).get? id :=
    fun other id => get?_clearOffsets _ _ _ _ _
  have hcommitted : ∀ place, (state.seeking topic partition offset).manager.committedOffsets place =
      if place = (topic, partition) then none else state.manager.committedOffsets place :=
    fun place => committedOffsets_clearOffsets _ _ _ _ _
  have hlast : ∀ place, (state.seeking topic partition offset).last place =
      if place = (topic, partition) then some offset else state.last place :=
    fun place => Function.update_apply _ _ _ _
  -- Only other partitions have a resolved offset.
  have hresolved : ∀ other id value,
      (state.seeking topic partition offset).Resolved other id value →
        (other, id) ≠ (topic, partition) ∧ state.Resolved other id value := by
    intro other id value hvalue
    obtain ⟨hvalid, hvalue⟩ := hvalue
    rw [hget] at hvalue
    split at hvalue
    · cases hvalue
    · next hne => exact ⟨hne, hvalid, hvalue⟩
  constructor
  · intro other id stored hstored
    rw [hget] at hstored
    split at hstored
    · cases hstored
    · exact h.strings other id stored hstored
  · intro place stored hstored
    rw [hcommitted] at hstored
    rw [hlast]
    split at hstored
    · cases hstored
    · next hne =>
        rw [if_neg hne]
        exact h.known place stored hstored
  · intro other id value hvalue hvalid hsame
    obtain ⟨hne, hvalue⟩ := hresolved other id value hvalue
    rw [hlast, if_neg hne] at hsame
    rw [hcommitted, if_neg hne]
    exact h.marked other id value hvalue hvalid hsame
  · intro topics hwaits other id value hvalue
    obtain ⟨hne, hvalue⟩ := hresolved other id value hvalue
    rw [hcommitted, if_neg hne]
    exact h.waits topics hwaits other id value hvalue

/-- A call of `commitOffsets` keeps the manager aligned. -/
theorem aligned_commitOffsets (h : state.Aligned) {offsets : Option OffsetTopics}
    {topics : OffsetTopics}
    (hcommit : state.manager.commitOffsets offsets = .ok (.commits topics)) :
    (state.wait (.commit topics offsets.isNone)).Aligned := by
  refine aligned_wait h fun others hcall => ?_
  cases offsets with
  | some explicit => cases hcall
  | none =>
      cases hcall
      obtain ⟨listed, hlisted, houtcome⟩ := commitOffsets_none hcommit
      split at houtcome
      · cases houtcome
      · cases houtcome
        exact h.covers hlisted

/-- A seek keeps the manager aligned. -/
theorem aligned_seek (h : state.Aligned) {offset : Int} {manager : OffsetManager}
    (hassigned : state.manager.isAssigned topic partition = true)
    (hseek : state.manager.seek topic partition offset = .returned manager)
    (hmarked : state.manager.autoCommit = false → state.Marked topic partition offset) :
    (state.resolving manager).Aligned := by
  rw [seek, if_neg (by rw [hassigned]; exact nofun)] at hseek
  by_cases hauto : state.manager.autoCommit = false
  · rw [if_pos hauto, resolveOffset, Int.sub_add_cancel] at hseek
    cases hseek
    exact aligned_resolving h (mem_topics_of_isAssigned hassigned) (hmarked hauto)
  · rw [if_neg hauto] at hseek
    cases hseek

/-- Every step that keeps the condition preserves the invariant. -/
theorem aligned_step {event : Event} (h : state.Aligned) (hkeeps : state.Keeps event)
    (hstep : step state event = some next) : next.Aligned := by
  cases event with
  | resolveOffset topic partition offset =>
      cases hstep
      split
      · next htopic => exact aligned_resolving h htopic (hkeeps htopic)
      · exact h
  | commitOffsets offsets =>
      rw [step] at hstep
      split at hstep
      · next hcommit =>
          cases hstep
          exact aligned_commitOffsets h hcommit
      · cases hstep
        exact h
  | seek topic partition offset =>
      rw [step] at hstep
      split at hstep
      · next hseek =>
          cases hstep
          split
          · next hassigned => exact aligned_seek h hassigned hseek (hkeeps hassigned)
          · exact h
      · cases hstep
        exact aligned_wait h fun topics hcall => nomatch hcall
  | resolveOffsets =>
      cases hstep
      split
      · exact h
      · exact aligned_wait h fun topics hcall => nomatch hcall
  | answered index =>
      rw [step] at hstep
      split at hstep
      · next hcall =>
          cases hstep
          exact aligned_committing h index (hkeeps _ _ hcall)
      · cases hstep
        exact aligned_seeking (aligned_settle h index) _ _ _
      · cases hstep
  | fetched index view listOffsets consumerOffsets =>
      rw [step] at hstep
      split at hstep
      · split at hstep
        · next hoffsets =>
            cases hstep
            exact aligned_fetching h index (hkeeps _ hoffsets)
        · cases hstep
          exact aligned_settle h index
      · cases hstep
  | failed index =>
      rw [step] at hstep
      split at hstep
      · cases hstep
        exact aligned_settle h index
      · cases hstep

/-- An automatic commit that succeeds leaves nothing to commit. -/
theorem listsNothing_of_completes {event : Event} (h : state.Aligned) (hkeeps : state.Keeps event)
    (hcompletes : state.Completes event) (hstep : step state event = some next) :
    next.manager.uncommittedOffsets = .ok [] := by
  have hnext := aligned_step h hkeeps hstep
  cases event with
  | answered index =>
      obtain ⟨topics, hcall⟩ := hcompletes
      rw [step, hcall] at hstep
      cases hstep
      refine hnext.listsNothing fun topic partition value hvalue => ?_
      rw [last_committing]
      rcases h.waits topics (List.mem_of_getElem? hcall) topic partition value hvalue with
        hlisted | ⟨hleft, hcommitted⟩
      · rw [hlisted]
        rfl
      · rw [hleft]
        exact h.known _ _ hcommitted
  | commitOffsets offsets =>
      obtain ⟨rfl, manager, hcommit⟩ := hcompletes
      rw [step, hcommit] at hstep
      cases hstep
      obtain ⟨listed, hlisted, houtcome⟩ := commitOffsets_none hcommit
      split at houtcome
      · next hempty => exact hempty ▸ hlisted
      · cases houtcome
  | _ => cases hcompletes

/-! ## What is listed -/

/-- In every run that keeps the condition: the uncommitted offsets are listed exactly, a call that
fails leaves the offset manager as it is, and right after a successful automatic commit nothing is
listed. -/
theorem uncommittedOffsets_exact {autoCommit : Bool} {memberAssignment : MemberTopics}
    {topicConfigurations : String → Option Bool} {events : List Event}
    (hrun : Execution.run step
      (start (create autoCommit memberAssignment topicConfigurations)) events = some state)
    (hkeeps : Execution.Meets step Keeps
      (start (create autoCommit memberAssignment topicConfigurations)) events) :
    state.ListsUncommitted ∧
      ∀ event next, step state event = some next →
        ((∃ index, event = .failed index) → next.manager = state.manager) ∧
        (state.Keeps event → state.Completes event →
          next.manager.uncommittedOffsets = .ok []) := by
  have haligned : state.Aligned := Execution.invariant_of_meets
    (fun _ _ _ h hkeeps hstep => aligned_step h hkeeps hstep)
    (aligned_start autoCommit memberAssignment topicConfigurations) hkeeps hrun
  refine ⟨haligned.listsUncommitted, fun event next hstep => ⟨fun hfailed => ?_,
    fun hkeep hcompletes => listsNothing_of_completes haligned hkeep hcompletes hstep⟩⟩
  obtain ⟨index, rfl⟩ := hfailed
  rw [step] at hstep
  split at hstep
  · cases hstep
    rfl
  · cases hstep

/-- No commit of a resolved offset through the consumer meets the condition. -/
theorem not_keeps_of_commitsByTopic {topicPartitions : List (String × Int × Offset)}
    {topics : OffsetTopics} {index : Nat} {undisturbed : Bool} {offset : Offset}
    (hcommits : commitsByTopic topicPartitions = .ok topics)
    (hcall : state.waiting[index]? = some (.commit topics undisturbed))
    (hoffset : lastListed topics (topic, partition) = some offset)
    (hresolved : state.Resolved topic partition offset.value) :
    ¬ state.Keeps (.answered index) := by
  intro hkeeps
  have hsame := hkeeps topics undisturbed hcall topic partition offset hoffset offset.value
    hresolved (Or.inl rfl)
  obtain ⟨value, object, rfl⟩ := long_of_commitsByTopic hcommits (lists_of_lastListed hoffset)
  cases hsame

/-! ## Samples -/

/-- A new offset manager with one partition. -/
def sampleManager : OffsetManager :=
  create true ⟨InsertionMap.empty.set "t" [0], noProto_single⟩ fun _ => some false

/-- The partition has this resolved offset. -/
def sampleResolved (value : Int) : Tracked :=
  (start sampleManager).resolving (sampleManager.setResolved "t" 0 (some (.ofInt value)))

/-- The sample manager has one topic. -/
theorem topics_sampleManager : sampleManager.topics = ["t"] := by
  have hentries : sampleManager.memberAssignment.partitions.nameEntries = [("t", [0])] :=
    InsertionMap.nameEntries_of_entries rfl
  rw [topics, hentries]
  rfl

/-- Resolving an offset of the sample manager. -/
theorem step_sampleManager (offset : Int) :
    step (start sampleManager) (.resolveOffset "t" 0 offset) =
      some (sampleResolved (offset + 1)) := by
  rw [step, if_pos (topics_sampleManager ▸ List.mem_singleton_self "t")]
  rfl

/-- The resolved offset of the sample manager is listed. -/
theorem uncommittedOffsets_sampleResolved :
    (sampleResolved 5).manager.uncommittedOffsets = .ok [("t", [(0, .ofInt 5)])] := by
  have htopics : (sampleResolved 5).manager.topics = ["t"] := topics_sampleManager
  rw [uncommittedOffsets, htopics]
  rfl

/-- An offset is resolved and committed automatically. -/
theorem uncommittedOffsets_sample :
    ∃ state next, Execution.run step (start sampleManager)
        [.resolveOffset "t" 0 4, .commitOffsets none] = some state ∧
      step state (.answered 0) = some next ∧ state.ListsUncommitted ∧
      state.manager.uncommittedOffsets = .ok [("t", [(0, .ofInt 5)])] ∧
      next.manager.uncommittedOffsets = .ok [] := by
  have hcommit : step (sampleResolved 5) (.commitOffsets none) =
      some ((sampleResolved 5).wait (.commit [("t", [(0, .ofInt 5)])] true)) := by
    rw [step, commitOffsets, uncommittedOffsets_sampleResolved]
    rfl
  have hrun : Execution.run step (start sampleManager)
      [.resolveOffset "t" 0 4, .commitOffsets none] =
        some ((sampleResolved 5).wait (.commit [("t", [(0, .ofInt 5)])] true)) := by
    rw [Execution.run, step_sampleManager]
    exact Execution.run_cons_eq_some.mpr ⟨_, hcommit, rfl⟩
  have hkeeps : Execution.Meets step Keeps (start sampleManager)
      [.resolveOffset "t" 0 4, .commitOffsets none] := by
    refine (Execution.meets_cons (step_sampleManager 4)).mpr ⟨?_, ?_⟩
    · intro _ _ hlast
      cases hlast
    · exact (Execution.meets_cons hcommit).mpr ⟨trivial, trivial⟩
  obtain ⟨hlists, hnext⟩ := uncommittedOffsets_exact hrun hkeeps
  refine ⟨_, _, hrun, rfl, hlists, uncommittedOffsets_sampleResolved,
    (hnext (.answered 0) _ rfl).2 ?_ ⟨_, rfl⟩⟩
  intro topics undisturbed hcall topic partition offset hoffset value hresolved _
  cases hcall
  obtain ⟨group, hgroup, hpair⟩ := lists_of_lastListed hoffset
  cases List.mem_singleton.mp hgroup
  cases List.mem_singleton.mp hpair
  cases hresolved.2
  rfl

/-- After the offset is resolved, `consumer.commitOffsets` commits the same offset. It is listed as
uncommitted. -/
theorem not_listsUncommitted_long :
    ∃ topics state, commitsByTopic [("t", 0, .string 5 0)] = .ok topics ∧
      Execution.run step (start sampleManager)
        [.resolveOffset "t" 0 4, .commitOffsets (some topics), .answered 0] = some state ∧
      state.last ("t", 0) = some 5 ∧
      state.manager.uncommittedOffsets = .ok [("t", [(0, .string 5 0)])] ∧
      ¬ state.ListsUncommitted := by
  have hcommits : commitsByTopic [("t", 0, .string 5 0)] = .ok [("t", [(0, .long 5 0)])] :=
    congrArg Except.ok (@InsertionMap.nameEntries_of_entries _
      (InsertionMap.empty.set "t" [(0, Offset.long 5 0)]) _ rfl)
  have hlisted : ((sampleResolved 5).committing
      [("t", [(0, .long 5 0)])]).manager.uncommittedOffsets = .ok [("t", [(0, .string 5 0)])] := by
    have htopics : ((sampleResolved 5).committing [("t", [(0, .long 5 0)])]).manager.topics =
      ["t"] := topics_sampleManager
    rw [uncommittedOffsets, htopics]
    rfl
  have hlast : ((sampleResolved 5).committing [("t", [(0, .long 5 0)])]).last ("t", 0) = some 5 :=
    rfl
  refine ⟨_, _, hcommits, ?_, hlast, hlisted, fun h => ?_⟩
  · rw [Execution.run, step_sampleManager]
    rfl
  · obtain ⟨listed, hsame, _, hlists⟩ := h
    cases hlisted.symm.trans hsame
    exact ((hlists "t" 0 (.ofInt 5)).mp
      ⟨_, List.mem_singleton_self _, List.mem_singleton_self _⟩).2.2 hlast

end Tracked

end OffsetManager

end KafkaJs.Consumer
