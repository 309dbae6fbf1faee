import KafkaJs.Admin.SetOffsetsStop
import Mathlib.Tactic.SplitIfs

/-!
# The commits of the temporary consumer

Each seek is popped by the fetch of the node that leads its partition, and committed before that
fetch pops another one. `Sound` keeps account of the seeks: until its fetch has emitted FETCH, a
seek is committed, being committed or still to come, as long as no fetch fails before.

With `Halting` it follows that all are committed when the promise resolves, which is
`committed_of_keepsSeeks`; `not_committed_connectionClosed` is a run in which a fetch fails too
early.
-/

namespace KafkaJs.Admin.SetOffsets

open Consumer Data Execution

variable {state next : SetOffsets} {partitions : List SeekEntry} {fetcher : Nat}
variable {wanted : InsertionMap Int Int} {partition offset : Int}

/-- Seeks of other partitions leave the seek of an entry. -/
theorem get?_foldl_set {entry : SeekEntry} {seekOffset : InsertionMap Int Int}
    (honly : ∀ other ∈ partitions, other.partition = entry.partition → other = entry)
    (hset : entry ∈ partitions ∨ seekOffset.get? entry.partition = some entry.offset) :
    (partitions.foldl (fun seekOffset other => seekOffset.set other.partition other.offset)
      seekOffset).get? entry.partition = some entry.offset := by
  induction partitions generalizing seekOffset with
  | nil => exact hset.resolve_left nofun
  | cons first partitions ih =>
      refine ih (fun other hother => honly other (List.mem_cons_of_mem _ hother)) ?_
      rw [InsertionMap.get?_set]
      by_cases hsame : first.partition = entry.partition
      · rw [if_pos hsame.symm, honly first List.mem_cons_self hsame]
        exact Or.inr rfl
      · rw [if_neg (Ne.symm hsame)]
        refine hset.imp_left fun hmem => (List.mem_cons.mp hmem).resolve_left ?_
        rintro rfl
        exact hsame rfl

/-- `consumer.seek` keeps the last offset of a partition, which is the only one here. -/
theorem get?_seekAll {entry : SeekEntry} (hmem : entry ∈ partitions)
    (honly : ∀ other ∈ partitions, other.partition = entry.partition → other = entry) :
    (seekAll partitions).get? entry.partition = some entry.offset :=
  get?_foldl_set honly (Or.inl hmem)

/-- Either no partition has a seek, or the first one that has is popped. -/
theorem seekOffsets_cases (seekOffset : InsertionMap Int Int) (todo : List Int) :
    (∀ partition ∈ todo, seekOffset.get? partition = none) ∧
        seekOffsets seekOffset todo = (seekOffset, .waiting) ∨
      ∃ before partition offset after, todo = before ++ partition :: after ∧
        (∀ other ∈ before, seekOffset.get? other = none) ∧
        seekOffset.get? partition = some offset ∧
        seekOffsets seekOffset todo =
          (seekOffset.delete partition, .committing partition offset after) := by
  induction todo with
  | nil => exact Or.inl ⟨nofun, rfl⟩
  | cons first todo ih =>
      rw [seekOffsets]
      cases hfirst : seekOffset.get? first with
      | none =>
          rcases ih with ⟨hnone, heq⟩ | ⟨before, partition, offset, after, rfl, hnone, hpopped, heq⟩
          · exact Or.inl ⟨List.forall_mem_cons.mpr ⟨hfirst, hnone⟩, heq⟩
          · exact Or.inr ⟨first :: before, partition, offset, after, rfl,
              List.forall_mem_cons.mpr ⟨hfirst, hnone⟩, hpopped, heq⟩
      | some offset => exact Or.inr ⟨[], first, offset, todo, rfl, nofun, hfirst, rfl⟩

/-- A seek is committed, or its fetch still comes to it. -/
def Accounted (state : SetOffsets) (partition offset : Int) : SeekPhase → Prop
  | .refreshing => state.seekOffset.get? partition = some offset
  | .committing current value todo =>
      current = partition ∧ value = offset ∨
        partition ∈ todo ∧ state.seekOffset.get? partition = some offset ∨
        ⟨partition, offset⟩ ∈ state.committed
  | .waiting | .returned => ⟨partition, offset⟩ ∈ state.committed

/-- What makes the commits complete in the end. `wanted` are the seeks before the fetchers start. -/
structure Sound (wanted : InsertionMap Int Int) (state : SetOffsets) : Prop
    extends Halting state where
  own : ∀ (fetcher : Nat) (partition offset : Int) (todo : List Int),
    state.fetches[fetcher]? = some (.committing partition offset todo) →
      ∀ other ∈ todo, state.topic.leaders.get? other = state.topic.nodeIds[fetcher]?
  kept : ∀ (fetcher : Nat) (phase : SeekPhase) (partition offset : Int),
    state.fetches[fetcher]? = some phase →
      state.topic.leaders.get? partition = state.topic.nodeIds[fetcher]? →
        wanted.get? partition = some offset → state.Accounted partition offset phase

/-- A consumer that has just sought every partition is sound. -/
theorem sound_create (topic : TopicLeaders) (partitions : List SeekEntry) :
    Sound (seekAll partitions) (create topic partitions) := by
  have hphase : ∀ (fetcher : Nat) (phase : SeekPhase),
      (create topic partitions).fetches[fetcher]? = some phase → phase = .refreshing := by
    intro fetcher phase hfetch
    obtain ⟨_, -, rfl⟩ := List.mem_map.mp (List.mem_of_getElem? hfetch)
    rfl
  refine ⟨halting_create topic partitions, ?_, ?_⟩
  · intro fetcher partition offset todo hfetch
    cases hphase fetcher _ hfetch
  · intro fetcher phase partition offset hfetch _ hwanted
    rw [hphase fetcher phase hfetch]
    exact hwanted

/-- A partition stays accounted for while its seek and the commits are kept. -/
theorem Accounted.mono {phase : SeekPhase} (h : state.Accounted partition offset phase)
    (hseek : state.seekOffset.get? partition = some offset →
      next.seekOffset.get? partition = some offset)
    (hcommitted : state.committed ⊆ next.committed) : next.Accounted partition offset phase := by
  cases phase with
  | refreshing => exact hseek h
  | committing current value todo =>
      rcases h with hcurrent | ⟨htodo, hset⟩ | hdone
      · exact Or.inl hcurrent
      · exact Or.inr (Or.inl ⟨htodo, hseek hset⟩)
      · exact Or.inr (Or.inr (hcommitted hdone))
  | waiting | returned => exact hcommitted h

/-- A fetch pops its next seek: those of the other nodes stay, and those of its own are committed,
popped or still to come. -/
theorem Sound.seekFrom (h : Sound wanted state) {old : SeekPhase} {nodeId : Int} {todo : List Int}
    (hold : state.fetches[fetcher]? = some old) (holdPhase : old ≠ .returned)
    (hnode : state.topic.nodeIds[fetcher]? = some nodeId)
    (htodo : ∀ other ∈ todo, state.topic.leaders.get? other = some nodeId)
    {committed : List SeekEntry} (hcommitted : state.committed ⊆ committed)
    (hkept : ∀ partition offset, state.topic.leaders.get? partition = some nodeId →
      wanted.get? partition = some offset →
        partition ∈ todo ∧ state.seekOffset.get? partition = some offset ∨
          ⟨partition, offset⟩ ∈ committed) :
    Sound wanted ({ state with committed }.seekFrom fetcher todo) := by
  have hlt := (List.getElem?_eq_some_iff.mp hold).1
  have hhalting := h.toHalting.set hold holdPhase (phase_seekOffsets state.seekOffset todo)
    (seekOffsets state.seekOffset todo).1 committed
  refine ⟨hhalting, ?_, ?_⟩
  · intro other partition offset rest hfetch
    by_cases heq : fetcher = other
    · subst heq
      have hset := (List.getElem?_set_self hlt).symm.trans hfetch
      rcases seekOffsets_cases state.seekOffset todo with
        ⟨-, hwaiting⟩ | ⟨before, _, _, after, rfl, -, -, hpopped⟩
      · rw [hwaiting] at hset
        cases hset
      · rw [hpopped] at hset
        cases hset
        intro other hother
        refine (htodo other ?_).trans hnode.symm
        exact List.mem_append_right _ (List.mem_cons_of_mem _ hother)
    · exact h.own other partition offset rest ((List.getElem?_set_ne heq).symm.trans hfetch)
  · intro other phase partition offset hfetch hleader hwanted
    by_cases heq : fetcher = other
    · subst heq
      have hset := Option.some.inj ((List.getElem?_set_self hlt).symm.trans hfetch)
      have hown := hkept partition offset (hleader.trans hnode) hwanted
      rcases seekOffsets_cases state.seekOffset todo with
        ⟨hnone, hwaiting⟩ | ⟨before, popped, value, after, rfl, hnone, hpop, hpopped⟩
      · rw [hwaiting] at hset
        subst hset
        refine hown.resolve_left fun ⟨hmem, hsome⟩ => ?_
        cases (hnone partition hmem).symm.trans hsome
      · rw [hpopped] at hset
        subst hset
        by_cases hsame : popped = partition
        · subst hsame
          rcases hown with ⟨-, hsome⟩ | hdone
          · exact Or.inl ⟨rfl, Option.some.inj (hpop.symm.trans hsome)⟩
          · exact Or.inr (Or.inr hdone)
        · rcases hown with ⟨hmem, hsome⟩ | hdone
          · refine Or.inr (Or.inl ⟨?_, ?_⟩)
            · rcases List.mem_append.mp hmem with hbefore | hafter
              · cases (hnone partition hbefore).symm.trans hsome
              · exact (List.mem_cons.mp hafter).resolve_left (Ne.symm hsame)
            · show (seekOffsets state.seekOffset _).1.get? partition = some offset
              rw [hpopped, InsertionMap.get?_delete, if_neg (Ne.symm hsame)]
              exact hsome
          · exact Or.inr (Or.inr hdone)
    · have hbefore := h.kept other phase partition offset
        ((List.getElem?_set_ne heq).symm.trans hfetch) hleader hwanted
      refine hbefore.mono (fun hsome => ?_) hcommitted
      show (seekOffsets state.seekOffset todo).1.get? partition = some offset
      rcases seekOffsets_cases state.seekOffset todo with
        ⟨-, hwaiting⟩ | ⟨before, popped, value, after, rfl, -, -, hpopped⟩
      · rw [hwaiting]
        exact hsome
      · rw [hpopped, InsertionMap.get?_delete, if_neg]
        · exact hsome
        · -- the popped seek is of another node
          rintro rfl
          have hpop := htodo partition (List.mem_append_right _ List.mem_cons_self)
          rw [← hnode] at hpop
          have hltNode := (List.getElem?_eq_some_iff.mp hnode).1
          exact heq ((List.getElem?_inj hltNode state.topic.distinct).mp (hpop.symm.trans hleader))

/-- FETCH changes nothing but the fetch and the manager. -/
theorem emitFetch_frame (hemit : state.emitFetch fetcher = some next) :
    next.fetches = state.fetches.set fetcher .returned ∧ next.topic = state.topic ∧
      next.seekOffset = state.seekOffset ∧ next.committed = state.committed := by
  unfold SetOffsets.emitFetch at hemit
  split at hemit <;> cases hemit <;> exact ⟨rfl, rfl, rfl, rfl⟩

/-- A fetch emits FETCH when the seeks of its node are committed. -/
theorem Sound.emitFetch (h : Sound wanted state) {old : SeekPhase}
    (hold : state.fetches[fetcher]? = some old) (hemit : state.emitFetch fetcher = some next)
    (hkept : ∀ partition offset,
      state.topic.leaders.get? partition = state.topic.nodeIds[fetcher]? →
        wanted.get? partition = some offset → ⟨partition, offset⟩ ∈ state.committed) :
    Sound wanted next := by
  have hlt := (List.getElem?_eq_some_iff.mp hold).1
  obtain ⟨hfetches, htopic, hseekOffset, hcommitted⟩ := emitFetch_frame hemit
  refine ⟨h.toHalting.emitFetch hlt hemit, ?_, ?_⟩
  · intro other partition offset todo hfetch
    rw [hfetches] at hfetch
    rw [htopic]
    by_cases heq : fetcher = other
    · subst heq
      cases (List.getElem?_set_self hlt).symm.trans hfetch
    · exact h.own other partition offset todo ((List.getElem?_set_ne heq).symm.trans hfetch)
  · intro other phase partition offset hfetch hleader hwanted
    rw [hfetches] at hfetch
    rw [htopic] at hleader
    by_cases heq : fetcher = other
    · subst heq
      cases (List.getElem?_set_self hlt).symm.trans hfetch
      rw [Accounted, hcommitted]
      exact hkept partition offset hleader hwanted
    · refine (h.kept other phase partition offset
        ((List.getElem?_set_ne heq).symm.trans hfetch) hleader hwanted).mono ?_ ?_
      · rw [hseekOffset]
        exact id
      · rw [hcommitted]
        exact List.Subset.refl _

/-- The manager has no part in the seeks. -/
theorem Sound.of_manager (h : Sound wanted state) {manager : FetchManager}
    (hhalting : Halting { state with manager }) : Sound wanted { state with manager } := by
  refine ⟨hhalting, h.own, ?_⟩
  intro fetcher phase partition offset hfetch hleader hwanted
  exact (h.kept fetcher phase partition offset hfetch hleader hwanted).mono id
    (List.Subset.refl _)

/-- A node leads the partitions whose recorded leader it is. -/
theorem mem_partitionsOf {topic : TopicLeaders} {nodeId : Int} :
    partition ∈ topic.partitionsOf nodeId ↔ topic.leaders.get? partition = some nodeId := by
  rw [TopicLeaders.partitionsOf, List.mem_filter, InsertionMap.mem_keys_iff, decide_eq_true_iff]
  exact ⟨And.right, fun hleader => ⟨⟨nodeId, hleader⟩, hleader⟩⟩

/-- Every event keeps account of the seeks, unless a fetch fails before it has committed its own. -/
theorem Sound.step {event : SetOffsetsEvent} (h : Sound wanted state)
    (hkeeps : state.keepsSeeks event = true) (hstep : state.step event = some next) :
    Sound wanted next := by
  have hhalting := h.toHalting.step hstep
  cases event with
  | refreshed fetcher =>
      simp only [SetOffsets.step] at hstep
      split at hstep
      · next nodeId hold hnode =>
          cases hstep
          refine h.seekFrom hold (by simp) hnode (fun other => mem_partitionsOf.mp)
            (List.Subset.refl _) ?_
          intro partition offset hleader hwanted
          exact Or.inl ⟨mem_partitionsOf.mpr hleader,
            h.kept fetcher _ partition offset hold (hleader.trans hnode.symm) hwanted⟩
      · cases hstep
  | committed fetcher =>
      simp only [SetOffsets.step] at hstep
      split at hstep
      · next current value todo hold =>
          cases hstep
          have hlt := (List.getElem?_eq_some_iff.mp hold).1
          have hnode := List.getElem?_eq_getElem (h.length ▸ hlt)
          refine h.seekFrom hold (by simp) hnode ?_ (List.subset_append_left _ _) ?_
          · exact fun other hother =>
              (h.own fetcher current value todo hold other hother).trans hnode
          · intro partition offset hleader hwanted
            rcases h.kept fetcher _ partition offset hold (hleader.trans hnode.symm) hwanted with
              ⟨rfl, rfl⟩ | htodo | hdone
            · exact Or.inr (List.mem_append_right _ List.mem_cons_self)
            · exact Or.inl htodo
            · exact Or.inr (List.mem_append_left _ hdone)
      · cases hstep
  | returns fetcher =>
      obtain ⟨hold, hemit⟩ := Option.ite_none_right_eq_some.mp hstep
      exact h.emitFetch hold hemit fun partition offset => h.kept fetcher _ partition offset hold
  | fails fetcher error =>
      simp only [SetOffsets.step] at hstep
      split at hstep
      · cases hstep
      · cases hstep
      · next phase hnot hold =>
          obtain ⟨-, hemit⟩ := Option.ite_none_right_eq_some.mp hstep
          have hlt := (List.getElem?_eq_some_iff.mp hold).1
          have hnode := List.getElem?_eq_getElem (h.length ▸ hlt)
          refine h.emitFetch hold hemit fun partition offset hleader hwanted => ?_
          have haccounted := h.kept fetcher phase partition offset hold hleader hwanted
          simp only [keepsSeeks, hold, hnode] at hkeeps
          cases phase with
          | refreshing =>
              -- no seek of the node is left
              have hnone := List.all_eq_true.mp hkeeps partition
                (mem_partitionsOf.mpr (hleader.trans hnode))
              cases (Option.isNone_iff_eq_none.mp hnone).symm.trans haccounted
          | committing => cases hkeeps
          | waiting | returned => exact haccounted
  | heartbeat fetcher error =>
      obtain ⟨-, hmap⟩ := Option.ite_none_right_eq_some.mp hstep
      obtain ⟨manager, -, rfl⟩ := Option.map_eq_some_iff.mp hmap
      exact h.of_manager hhalting
  | nodes nodeIds =>
      cases hstep
      exact h.of_manager hhalting
  | allEnded | caught | internalStopped =>
      obtain ⟨manager, -, rfl⟩ := Option.map_eq_some_iff.mp hstep
      exact h.of_manager hhalting
  | resolves =>
      obtain ⟨-, hnext⟩ := Option.ite_none_right_eq_some.mp hstep
      cases hnext
      exact ⟨hhalting, h.own, fun fetcher phase partition offset hfetch hleader hwanted =>
        (h.kept fetcher phase partition offset hfetch hleader hwanted).mono id
          (List.Subset.refl _)⟩

/-- When the promise has resolved, every seek of a partition that exists is committed. -/
theorem Sound.committed (h : Sound wanted state) (hresolved : state.resolved = true)
    (hexists : partition ∈ state.topic.leaders.keys)
    (hwanted : wanted.get? partition = some offset) : ⟨partition, offset⟩ ∈ state.committed := by
  obtain ⟨node, hleader⟩ := InsertionMap.mem_keys_iff.mp hexists
  obtain ⟨fetcher, hnode⟩ := List.mem_iff_getElem?.mp (state.topic.known partition node hleader)
  have hlt := (List.getElem?_eq_some_iff.mp hnode).1
  rw [← h.length] at hlt
  have hphase := h.resolved hresolved _ (List.getElem_mem hlt)
  have hfetch := List.getElem?_eq_getElem hlt
  rw [hphase] at hfetch
  exact h.kept fetcher .returned partition offset hfetch (hleader.trans hnode.symm) hwanted

/-- With valid arguments and a group without members the consumer is started. -/
theorem setOffsets_eq_ok {topicLeaders : TopicLeaders} {groupId topic groupState : String}
    {initial : SetOffsets}
    (hsetOffsets : setOffsets topicLeaders groupId topic partitions groupState = .ok initial) :
    initial = create topicLeaders partitions := by
  unfold setOffsets at hsetOffsets
  split_ifs at hsetOffsets
  exact (Except.ok.inj hsetOffsets).symm

/-- In every run in which no fetch fails before it has committed the seeks of its node, every listed
partition that exists is committed with its offset when the promise resolves. -/
theorem committed_of_keepsSeeks {topicLeaders : TopicLeaders} {groupId topic groupState : String}
    {initial : SetOffsets} {events : List SetOffsetsEvent}
    (hsetOffsets : setOffsets topicLeaders groupId topic partitions groupState = .ok initial)
    (hagree : ∀ first ∈ partitions, ∀ second ∈ partitions, first.partition = second.partition →
      first = second)
    (hmeets : Meets step (fun state event => state.keepsSeeks event = true) initial events)
    (hrun : run step initial events = some state) (hresolved : state.resolved = true) :
    Committed partitions state := by
  cases setOffsets_eq_ok hsetOffsets
  have hsound : Sound (seekAll partitions) state :=
    invariant_of_meets (fun _ _ _ h hkeeps hstep => Sound.step h hkeeps hstep)
      (sound_create topicLeaders partitions) hmeets hrun
  intro entry hmem hexists
  exact hsound.committed hresolved hexists
    (get?_seekAll hmem fun other hother => hagree other hother entry hmem)

/-- Two partitions with leaders on two nodes. -/
def twoLeaders : TopicLeaders where
  nodeIds := [1, 2]
  leaders := ⟨[(0, 1), (1, 2)], by decide⟩
  distinct := by decide
  known := by
    intro partition node hleader
    have hmem := InsertionMap.mem_entries_iff.mpr hleader
    simp only [List.mem_cons, Prod.mk.injEq, List.not_mem_nil, or_false] at hmem ⊢
    omega

/-- Both fetchers commit, and the second one fails afterwards. -/
def bothCommitted : List SetOffsetsEvent :=
  [.refreshed 1, .refreshed 0, .committed 1,
    .fails 1 (.kafka { name := .kafkaJSConnectionClosedError, message := "Closed connection" }),
    .heartbeat 1 none, .committed 0, .returns 0, .heartbeat 0 none, .allEnded, .resolves]

/-- A run in which the second fetcher fails after its commit resolves with both offsets committed.
-/
theorem committed_bothCommitted : ∃ initial state,
    setOffsets twoLeaders "group" "topic" [⟨0, 5⟩, ⟨1, 7⟩] "Empty" = .ok initial ∧
      run step initial bothCommitted = some state ∧ state.resolved = true ∧
        Committed [⟨0, 5⟩, ⟨1, 7⟩] state := by
  have hstart : setOffsets twoLeaders "group" "topic" [⟨0, 5⟩, ⟨1, 7⟩] "Empty" =
      .ok (create twoLeaders [⟨0, 5⟩, ⟨1, 7⟩]) := rfl
  have hresolved : (run step (create twoLeaders [⟨0, 5⟩, ⟨1, 7⟩]) bothCommitted).map
      SetOffsets.resolved = some true := by decide
  obtain ⟨state, hrun, hresolved⟩ := Option.map_eq_some_iff.mp hresolved
  exact ⟨_, state, hstart, hrun, hresolved,
    committed_of_keepsSeeks hstart (by decide) (by decide) hrun hresolved⟩

/-- The connection of the second fetcher is closed before its commit is answered. -/
def connectionClosed : List SetOffsetsEvent :=
  [.refreshed 1, .refreshed 0,
    .fails 1 (.kafka { name := .kafkaJSConnectionClosedError, message := "Closed connection" }),
    .heartbeat 1 none, .committed 0, .returns 0, .heartbeat 0 none, .allEnded, .resolves]

/-- A run in which the second fetcher fails before its commit resolves without that offset. -/
theorem not_committed_connectionClosed : ∃ initial state,
    setOffsets twoLeaders "group" "topic" [⟨0, 5⟩, ⟨1, 7⟩] "Empty" = .ok initial ∧
      run step initial connectionClosed = some state ∧ state.resolved = true ∧
        ¬ Committed [⟨0, 5⟩, ⟨1, 7⟩] state := by
  have hcommitted : (run step (create twoLeaders [⟨0, 5⟩, ⟨1, 7⟩]) connectionClosed).map
      (fun state => (state.resolved, state.committed, state.topic.leaders.keys)) =
        some (true, [⟨0, 5⟩], [0, 1]) := by decide
  obtain ⟨state, hrun, hstate⟩ := Option.map_eq_some_iff.mp hcommitted
  obtain ⟨hresolved, hrest⟩ := Prod.mk.inj hstate
  obtain ⟨hcommitted, hkeys⟩ := Prod.mk.inj hrest
  refine ⟨_, state, rfl, hrun, hresolved, fun hall => ?_⟩
  have hmem := hall ⟨1, 7⟩ (by decide) (by rw [hkeys]; decide)
  rw [hcommitted] at hmem
  exact absurd hmem (by decide)

end KafkaJs.Admin.SetOffsets
