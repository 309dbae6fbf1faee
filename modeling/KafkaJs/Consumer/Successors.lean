import KafkaJs.Consumer.EndToEnd
import KafkaJs.Execution.Reached

/-!
# The consumers of a partition over its lifetime

A partition moves from consumer to consumer. Each one starts at the offset that the coordinator has
for the group, or at a default where there is none yet, and reads the log over the bytes of
responses, as in `FetchedBytes`. Nothing else ties the consumers together: one that has lost the
partition goes on with what it has fetched, and the coordinator may get the commits late, in any
order, more than once or not at all. `covers_of_run`: still, no message is left out. What was
produced outside of a transaction and lies from the default on and before the committed offset, or
before the offset that any consumer has resolved, reached the handler of one of them, as in
`EndToEnd`: its headers if none of them has an inherited name. The default stays the same, as that
of `fromBeginning` does while nothing is deleted from the log.

A consumer that joins the group again counts as another one; its handlers have returned by then.
Offsets that the user commits explicitly are left out.
-/

namespace KafkaJs.Consumer

open KafkaJs.Data KafkaJs.Execution KafkaJs.Protocol

variable {codecs : Codecs}

/-! ## The system -/

/-- A consumer that has been assigned the partition. It was given the offset `start`, which only the
specifications read. -/
structure Successor (codecs : Codecs) where
  start : Int
  consumer : State
  received : List PartitionMessage

/-- The log, the committed offset at the coordinator, and all consumers that have had the partition,
in the order in which they came. -/
structure Succession (codecs : Codecs) where
  log : StoredLog codecs
  committed : Option Int
  members : List (Successor codecs)

/-- What may happen next: the log grows, another consumer is assigned the partition, the response to
a fetch of a consumer arrives there, a consumer does anything else, or a commit that a consumer has
sent reaches the coordinator. -/
inductive SuccessionEvent (codecs : Codecs) where
  | append (batch : StoredBatch codecs)
  | join
  | answer (member index fuel : Nat) (surroundings : Surroundings codecs)
  | consumer (member : Nat) (event : Event)
  | commit (member : Nat) (offset : StoredOffset)

/-- A consumer that has been given an offset. -/
def Successor.new (start : Int) : Successor codecs :=
  { start, consumer := State.initial start, received := [] }

/-- The consumer with the log that it reads. -/
def Successor.system (log : StoredLog codecs) (member : Successor codecs) : System codecs :=
  { log, consumer := member.consumer, received := member.received }

/-- The consumer after a step. -/
def Successor.update (member : Successor codecs) (system : System codecs) : Successor codecs :=
  { member with consumer := system.consumer, received := system.received }

namespace Succession

/-- The group of a new partition. -/
def initial : Succession codecs := { log := .empty, committed := none, members := [] }

/-- One of the consumers goes on. -/
def advance (settings : Settings) (group : Succession codecs) (member : Nat)
    (event : SystemEvent codecs) : Option (Succession codecs) :=
  match group.members[member]? with
  | none => none
  | some successor =>
      (System.step settings (successor.system group.log) event).map fun system =>
        { group with members := group.members.set member (successor.update system) }

/-- One event. -/
def step (settings : Settings) (defaultOffset : Nat) (group : Succession codecs) :
    SuccessionEvent codecs → Option (Succession codecs)
  | .append batch =>
      if h : ∀ stored ∈ group.log.batches, stored.lastOffset < batch.firstOffset then
        some { group with log := group.log.append batch h }
      else none
  | .join =>
      some { group with
        members := group.members ++ [.new (group.committed.getD defaultOffset)] }
  | .answer member index fuel surroundings =>
      group.advance settings member (.answer index fuel surroundings)
  | .consumer member event => group.advance settings member (.consumer event)
  | .commit member offset =>
      match group.members[member]? with
      | none => none
      | some successor =>
          if offset ∈ successor.consumer.autoCommitted then
            some { group with committed := some offset.value }
          else none

end Succession

/-- Whether the user commits an offset. -/
def Event.commitsExplicitly : Event → Bool
  | .commitOffsets _ _ => true
  | _ => false

/-- Responses are sound, and the user commits no offsets. -/
def Succession.Sound (settings : Settings) (group : Succession codecs) :
    SuccessionEvent codecs → Prop
  | .answer member index fuel surroundings => ∀ successor ∈ group.members[member]?,
      (successor.system group.log).Sound settings (.answer index fuel surroundings)
  | .consumer _ event => event.commitsExplicitly = false
  | .append _ | .join | .commit _ _ => True

/-! ## What the group is for -/

/-- Every message that was produced outside of a transaction and lies in an interval of offsets was
delivered to one of the consumers. -/
def Succession.Covered (group : Succession codecs) (first last : Int) : Prop :=
  ∀ (produced : Produced) (h : produced.Valid codecs), produced.Plain →
    produced.stored h ∈ group.log.batches →
    ∀ (index : Nat) (message : Produce.Message), produced.data.messages[index]? = some message →
      first ≤ produced.firstOffset + index → produced.firstOffset + index < last →
      ∃ successor ∈ group.members, Delivered (successor.system group.log) produced index message

/-- The handlers got messages of the log only, and nothing before the committed offset or the offset
of a consumer was left out. -/
structure Succession.Covers (defaultOffset : Nat) (group : Succession codecs) : Prop where
  handled : ∀ successor ∈ group.members, ∀ message ∈ successor.consumer.handled,
    ∃ decoded ∈ group.log.messages, Message.of decoded = message
  committed : ∀ offset ∈ group.committed, group.Covered defaultOffset offset
  resolved : ∀ successor ∈ group.members, ∀ offset ∈ successor.consumer.resolvedOffset,
    group.Covered defaultOffset offset.value

/-! ## The start of a consumer -/

/-- Until its first fetch a consumer has nothing but the offset that it was given, and it starts
there. -/
structure Begins (start : Int) (state : State) : Prop where
  unstarted : state.start = none → state.committedOffset = some ⟨start, none⟩ ∧
    state.resolvedOffset = none ∧ state.fetches = [] ∧ state.queue = [] ∧ state.todo = [] ∧
    state.commits = [] ∧ state.autoCommitted = []
  started : ∀ offset ∈ state.start, offset = max start 0

section Steps

variable {config : Config} {state next : State} {event : Event} {start : Int}

/-- A consumer begins at its start. -/
theorem begins_initial (start : Int) : Begins start (State.initial start) where
  unstarted := fun _ => ⟨rfl, rfl, rfl, rfl, rfl, rfl, rfl⟩
  started := fun _ hoffset => nomatch hoffset

/-- Only a fetch sets the start, once. -/
theorem start_of_fires (h : Fires config state event next) :
    next.start = state.start ∨
      next.start = some (state.start.getD state.nextOffset.2) ∧ event = .fetch := by
  cases h with
  | fetch => exact .inr ⟨rfl, rfl⟩
  | handleBatch => exact .inl (handleBatch_frame _).1
  | commit => exact .inl (autoCommitOffsets_frame _ _).1
  | _ => exact .inl rfl

/-- What was sent is not forgotten. -/
theorem autoCommitted_of_fires (h : Fires config state event next) {offset : StoredOffset}
    (hmem : offset ∈ state.autoCommitted) : offset ∈ next.autoCommitted := by
  cases h with
  | @handleBatch batch queue htodo hqueue =>
      unfold State.handleBatch
      split
      · dsimp only
        split
        · exact hmem
        · split <;> exact hmem
      · exact hmem
  | @commit _ task todo htodo =>
      unfold State.autoCommitOffsets
      rcases @sendCommit_cases state config with hnone | ⟨sent, -, hsent⟩
      · rw [hnone]
        exact hmem
      · rw [hsent]
        exact List.mem_append_left _ hmem
  | resolvedSent => exact List.mem_append_left _ hmem
  | _ => exact hmem

/-- Without explicit commits a consumer starts where it was told to. -/
theorem Begins.step (h : Begins start state) (hexplicit : event.commitsExplicitly = false)
    (hfires : Fires config state event next) : Begins start next := by
  by_cases hstart : state.start = none
  · obtain ⟨hcommitted, hresolved, hfetches, hqueue, htodo, hcommits, hsent⟩ := h.unstarted hstart
    cases hfires with
    | pause | resume | stop =>
        exact ⟨fun _ => ⟨hcommitted, hresolved, hfetches, hqueue, htodo, hcommits, hsent⟩,
          h.started⟩
    | fetch =>
        refine ⟨fun hnone => (by cases hnone), fun offset hoffset => ?_⟩
        simp only [State.nextOffset, hresolved, hcommitted, hstart, Option.getD_none,
          Option.mem_some] at hoffset
        subst hoffset
        simp only [isInvalidOffset, Option.map_some, Option.getD_some, decide_eq_true_eq]
        split
        · next hnegative => exact (max_eq_right (le_of_lt hnegative)).symm
        · next hvalid => exact (max_eq_left (not_lt.mp hvalid)).symm
    | fetchFails hindex => simp [hfetches] at hindex
    | responseDropped hoffset | response hoffset => simp [hfetches] at hoffset
    | handleBatch _ hqueue' => cases hqueue.symm.trans hqueue'
    | commitOffsets => cases hexplicit
    | commitOffsetsAnswered hoffset => simp [hcommits] at hoffset
    -- all others find the worker at some task
    | messagesEnd hother | nextMessage hother | handlerReturns hother | handlerThrows hother
    | checkPaused hother | heartbeatOk hother | heartbeatRebalancing hother
    | heartbeatFailed hother | commit hother | commitUnnecessary hother | commitSucceeds hother
    | commitFails hother | nothingSent hother | resolvedSent hother =>
        cases htodo.symm.trans hother
  · have hsame : next.start = state.start := by
      rcases start_of_fires hfires with hsame | ⟨hset, -⟩
      · exact hsame
      · obtain ⟨offset, hoffset⟩ := Option.ne_none_iff_exists'.mp hstart
        rw [hset, hoffset]
        rfl
    exact ⟨fun hnone => absurd (hsame.symm.trans hnone) hstart, hsame ▸ h.started⟩

end Steps

/-! ## A step of one consumer -/

section Systems

variable {settings : Settings} {system next : System codecs} {start : Int}

/-- A batch changes nothing but what waits for the worker. -/
theorem takeBatch_frame (offset : Int) (state : State) (data : Fetch.PartitionData) :
    (state.takeBatch offset data).start = state.start ∧
      (state.takeBatch offset data).autoCommitted = state.autoCommitted := by
  unfold State.takeBatch
  split
  · exact ⟨rfl, rfl⟩
  · split <;> exact ⟨rfl, rfl⟩

/-- Taking batches keeps the start and the commits. -/
theorem takeBatches_frame (offset : Int) (state : State) (partitions : List Fetch.PartitionData) :
    (partitions.foldl (State.takeBatch offset) state).start = state.start ∧
      (partitions.foldl (State.takeBatch offset) state).autoCommitted = state.autoCommitted := by
  induction partitions generalizing state with
  | nil => exact ⟨rfl, rfl⟩
  | cons data partitions ih =>
      obtain ⟨hstart, hsent⟩ := takeBatch_frame offset state data
      rw [List.foldl_cons, (ih _).1, (ih _).2]
      exact ⟨hstart, hsent⟩

/-- A response keeps the start and the commits. -/
theorem receive_frame (index : Nat) (offset : Int) (partitions : List Fetch.PartitionData) :
    (system.receive index offset partitions).consumer.start = system.consumer.start ∧
      (system.receive index offset partitions).consumer.autoCommitted =
        system.consumer.autoCommitted :=
  takeBatches_frame offset
    { system.consumer with fetches := system.consumer.fetches.eraseIdx index } partitions

/-- A step of a consumer that was given an offset. -/
structure Advances (start : Int) (system next : System codecs) : Prop where
  log : next.log = system.log
  begins : Begins start next.consumer
  autoCommitted : ∀ offset ∈ system.consumer.autoCommitted,
    offset ∈ next.consumer.autoCommitted

/-- A consumer advances by a response. -/
theorem advances_answer {index fuel : Nat} {surroundings : Surroundings codecs}
    (h : Begins start system.consumer)
    (hstep : system.step settings (.answer index fuel surroundings) = some next) :
    Advances start system next := by
  rcases step_cases hstep with ⟨_, hevent, -⟩ |
    ⟨_, _, _, offset, partitions, hevent, hoffset, -, rfl⟩ | ⟨_, _, hevent, -⟩
  · cases hevent
  · cases hevent
    obtain ⟨hstart, hsent⟩ := @receive_frame _ system index offset partitions
    have hbegun : system.consumer.start ≠ none := by
      intro hnone
      obtain ⟨-, -, hfetches, -⟩ := h.unstarted hnone
      cases hfetches ▸ hoffset
    refine ⟨rfl, ⟨fun hnone => absurd (hstart.symm.trans hnone) hbegun, ?_⟩, ?_⟩
    · rw [hstart]
      exact h.started
    · rw [hsent]
      exact fun _ hmem => hmem
  · cases hevent

/-- A consumer advances by any event of its own that commits nothing explicitly. -/
theorem advances_consumer {event : Event} (h : Begins start system.consumer)
    (hexplicit : event.commitsExplicitly = false)
    (hstep : system.step settings (.consumer event) = some next) : Advances start system next := by
  rcases step_cases hstep with ⟨_, hevent, -⟩ | ⟨_, _, _, _, _, hevent, -⟩ |
    ⟨plain, consumer, hevent, -, hconsumer, rfl⟩
  · cases hevent
  · cases hevent
  · cases hevent
    have hfires := fires_of_step hconsumer
    exact ⟨rfl, h.step hexplicit hfires, fun _ hmem => autoCommitted_of_fires hfires hmem⟩

/-- A consumer may come when there is a log already. -/
theorem reached_log (settings : Settings) (log : StoredLog codecs) (start : Int) :
    Reached (System.step settings) (System.Sound settings) (System.initial start)
      ((Successor.new start).system log) := by
  obtain ⟨batches, ordered⟩ := log
  induction batches using List.reverseRecOn with
  | nil => exact .refl _
  | append_singleton batches batch ih =>
      have hparts := List.pairwise_append.mp ordered
      have hlater : ∀ stored ∈ batches, stored.lastOffset < batch.firstOffset :=
        fun stored hstored => hparts.2.2 stored hstored batch (List.mem_singleton_self batch)
      exact (ih hparts.1).extend (.append batch) trivial (step_append hlater)

end Systems

/-! ## What ties the consumers together -/

/-- One of the first `count` consumers has sent the offset in a commit. -/
def Succession.Sent (group : Succession codecs) (count : Nat) (offset : Int) : Prop :=
  ∃ index < count, ∃ other, group.members[index]? = some other ∧
    ∃ sent ∈ other.consumer.autoCommitted, sent.value = offset

/-- Every consumer has read the log on its own, and was given the default or what one before it has
sent. -/
structure Linked (settings : Settings) (defaultOffset : Nat) (group : Succession codecs) :
    Prop where
  reached : ∀ successor ∈ group.members,
    Reached (System.step settings) (System.Sound settings) (System.initial successor.start)
      (successor.system group.log)
  begins : ∀ successor ∈ group.members, Begins successor.start successor.consumer
  given : ∀ (index : Nat) (successor : Successor codecs),
    group.members[index]? = some successor →
    successor.start = defaultOffset ∨ group.Sent index successor.start
  committed : ∀ offset ∈ group.committed, group.Sent group.members.length offset

section Groups

variable {settings : Settings} {defaultOffset : Nat} {group next : Succession codecs}

/-- At first there is no consumer. -/
theorem linked_initial :
    Linked settings defaultOffset (Succession.initial : Succession codecs) where
  reached := fun _ hmem => absurd hmem List.not_mem_nil
  begins := fun _ hmem => absurd hmem List.not_mem_nil
  given := fun _ _ hmember => nomatch hmember
  committed := fun _ hoffset => nomatch hoffset

/-- What was sent stays sent. -/
theorem Succession.Sent.mono {count : Nat} {offset : Int} (h : group.Sent count offset)
    (hkept : ∀ (index : Nat) (other : Successor codecs), group.members[index]? = some other →
      ∃ later, next.members[index]? = some later ∧
        ∀ sent ∈ other.consumer.autoCommitted, sent ∈ later.consumer.autoCommitted) :
    next.Sent count offset := by
  obtain ⟨index, hindex, other, hother, sent, hsent, hvalue⟩ := h
  obtain ⟨later, hlater, hmore⟩ := hkept index other hother
  exact ⟨index, hindex, later, hlater, sent, hmore sent hsent, hvalue⟩

/-- A consumer goes on. -/
theorem Linked.advance (h : Linked settings defaultOffset group) {member : Nat}
    (event : SystemEvent codecs)
    (hok : ∀ successor ∈ group.members[member]?,
      (successor.system group.log).Sound settings event)
    (hadvances : ∀ (successor : Successor codecs) (system : System codecs),
      Begins successor.start successor.consumer →
      System.step settings (successor.system group.log) event = some system →
      Advances successor.start (successor.system group.log) system)
    (hstep : group.advance settings member event = some next) :
    Linked settings defaultOffset next := by
  unfold Succession.advance at hstep
  split at hstep
  · cases hstep
  next successor hmember =>
  obtain ⟨system, hsystem, rfl⟩ := Option.map_eq_some_iff.mp hstep
  have hmem := List.mem_of_getElem? hmember
  obtain ⟨hlog, hbegins, hkept⟩ := hadvances successor system (h.begins successor hmem) hsystem
  have hself : (group.members.set member (successor.update system))[member]? =
      some (successor.update system) :=
    List.getElem?_set_self (List.getElem?_eq_some_iff.mp hmember).1
  -- what some consumer had sent before it still has, the one that goes on included
  have hsent : ∀ {count : Nat} {offset : Int}, group.Sent count offset →
      Succession.Sent { group with
        members := group.members.set member (successor.update system) } count offset := by
    refine fun hold => hold.mono fun index other hother => ?_
    by_cases hsame : member = index
    · subst hsame
      cases hmember.symm.trans hother
      exact ⟨_, hself, hkept⟩
    · exact ⟨other, (List.getElem?_set_ne hsame).trans hother, fun _ hsent => hsent⟩
  refine ⟨fun other hother => ?_, fun other hother => ?_, fun index other hother => ?_,
    fun offset hoffset => ?_⟩
  · rcases List.mem_or_eq_of_mem_set hother with hold | rfl
    · exact h.reached other hold
    · have hreached := (h.reached successor hmem).extend event (hok successor hmember) hsystem
      obtain ⟨log, consumer, received⟩ := system
      cases hlog
      exact hreached
  · rcases List.mem_or_eq_of_mem_set hother with hold | rfl
    · exact h.begins other hold
    · exact hbegins
  · by_cases hsame : member = index
    · subst hsame
      cases hself.symm.trans hother
      exact (h.given member successor hmember).imp id hsent
    · exact (h.given index other ((List.getElem?_set_ne hsame).symm.trans hother)).imp id hsent
  · show Succession.Sent _ (group.members.set member _).length offset
    rw [List.length_set]
    exact hsent (h.committed offset hoffset)

/-- A consumer comes. -/
theorem Linked.join (h : Linked settings defaultOffset group) :
    Linked settings defaultOffset { group with
      members := group.members ++ [.new (group.committed.getD defaultOffset)] } := by
  have hsent : ∀ {count : Nat} {offset : Int}, group.Sent count offset →
      Succession.Sent { group with
        members := group.members ++ [.new (group.committed.getD defaultOffset)] }
          count offset := by
    refine fun hold => hold.mono fun index other hother => ⟨other, ?_, fun _ hsent => hsent⟩
    exact (List.getElem?_append_left (List.getElem?_eq_some_iff.mp hother).1).trans hother
  refine ⟨fun other hother => ?_, fun other hother => ?_, fun index other hother => ?_,
    fun offset hoffset => ?_⟩
  · rcases List.mem_append.mp hother with hold | hnew
    · exact h.reached other hold
    · cases List.mem_singleton.mp hnew
      exact reached_log settings group.log _
  · rcases List.mem_append.mp hother with hold | hnew
    · exact h.begins other hold
    · cases List.mem_singleton.mp hnew
      exact begins_initial _
  · by_cases hindex : index < group.members.length
    · have hold := (List.getElem?_append_left hindex).symm.trans hother
      exact (h.given index other hold).imp id hsent
    · -- the new one is given the committed offset, which one before it has sent
      rw [List.getElem?_append_right (not_lt.mp hindex)] at hother
      obtain ⟨hlast, rfl⟩ := List.getElem?_eq_some_iff.mp hother
      have hlength : index = group.members.length := by
        rw [List.length_singleton] at hlast
        omega
      simp only [List.getElem_singleton, hlength]
      rcases hcommitted : group.committed with - | offset
      · exact .inl rfl
      · have hgiven := hsent (h.committed offset hcommitted)
        rw [hcommitted] at hgiven
        exact .inr hgiven
  · obtain ⟨index, hindex, hother⟩ := hsent (h.committed offset hoffset)
    exact ⟨index, hindex.trans_le (by simp), hother⟩

/-- Every step keeps it. -/
theorem Linked.step {event : SuccessionEvent codecs} (h : Linked settings defaultOffset group)
    (hsound : group.Sound settings event)
    (hstep : group.step settings defaultOffset event = some next) :
    Linked settings defaultOffset next := by
  cases event with
  | append batch =>
      simp only [Succession.step] at hstep
      split at hstep
      · next hlater =>
          cases hstep
          refine ⟨fun successor hmem => ?_, h.begins, h.given, h.committed⟩
          exact (h.reached successor hmem).extend (.append batch) trivial
            (step_append hlater)
      · cases hstep
  | join =>
      cases hstep
      exact h.join
  | answer member index fuel surroundings =>
      exact h.advance _ hsound (fun _ _ hbegins hsystem => advances_answer hbegins hsystem) hstep
  | consumer member event =>
      exact h.advance (.consumer event) (fun _ _ => trivial)
        (fun _ _ hbegins hsystem => advances_consumer hbegins hsound hsystem) hstep
  | commit member offset =>
      simp only [Succession.step] at hstep
      split at hstep
      · cases hstep
      · next successor hmember =>
          split at hstep
          · next hsent =>
              cases hstep
              refine ⟨h.reached, h.begins, h.given, fun other hother => ?_⟩
              cases hother
              exact ⟨member, (List.getElem?_eq_some_iff.mp hmember).1, successor, hmember, offset,
                hsent, rfl⟩
          · cases hstep

/-! ## No message is left out -/

/-- What lies before an offset that a consumer has resolved or sent was delivered to the consumer,
or lies before its own start. -/
theorem Linked.covered_of_offset (h : Linked settings defaultOffset group)
    {successor : Successor codecs} (hmem : successor ∈ group.members)
    (hbefore : group.Covered defaultOffset (max successor.start 0)) {offset : StoredOffset}
    (hoffset : offset ∈ successor.consumer.resolvedOffset.toList ++
      successor.consumer.autoCommitted) : group.Covered defaultOffset offset.value := by
  intro produced hvalid hplain hstored index message hmessage hfrom hto
  obtain ⟨events, hrun, hsound⟩ := h.reached successor hmem
  have hbegins := h.begins successor hmem
  have hbegun : successor.consumer.start ≠ none := by
    intro hnone
    obtain ⟨-, hresolved, -, -, -, -, hsent⟩ := hbegins.unstarted hnone
    simp [hresolved, hsent] at hoffset
  obtain ⟨start, hstart⟩ := Option.ne_none_iff_exists'.mp hbegun
  rcases lt_or_ge (produced.firstOffset + index) start with hearly | hlate
  · rw [hbegins.started start hstart] at hearly
    exact hbefore produced hvalid hplain hstored index message hmessage hfrom hearly
  · exact ⟨successor, hmem, delivered_of_run hrun hsound hvalid hplain hstored hoffset hstart
      hmessage hlate hto⟩

/-- By induction on the consumers, all that lies before the start of one was delivered. -/
theorem Linked.covered_start (h : Linked settings defaultOffset group) (index : Nat)
    (successor : Successor codecs) (hmember : group.members[index]? = some successor) :
    group.Covered defaultOffset (max successor.start 0) := by
  induction index using Nat.strongRecOn generalizing successor with
  | ind index ih =>
      intro produced hvalid hplain hstored place message hmessage hfrom hto
      rcases h.given index successor hmember with
        hdefault | ⟨earlier, hearlier, other, hother, sent, hsent, hvalue⟩
      · omega
      · have hstart := ih earlier hearlier other hother
        refine h.covered_of_offset (List.mem_of_getElem? hother) hstart
          (List.mem_append_right _ hsent) produced hvalid hplain hstored place message hmessage
          hfrom ?_
        omega

/-- What lies before an offset of a consumer is covered. -/
theorem Linked.covered (h : Linked settings defaultOffset group) {successor : Successor codecs}
    (hmem : successor ∈ group.members) {offset : StoredOffset}
    (hoffset : offset ∈ successor.consumer.resolvedOffset.toList ++
      successor.consumer.autoCommitted) : group.Covered defaultOffset offset.value := by
  obtain ⟨index, hmember⟩ := List.mem_iff_getElem?.mp hmem
  exact h.covered_of_offset hmem (h.covered_start index successor hmember) hoffset

/-- A linked group leaves nothing out. -/
theorem Linked.covers (h : Linked settings defaultOffset group) : group.Covers defaultOffset where
  handled := by
    intro successor hmem message hmessage
    obtain ⟨events, hrun, hsound⟩ := h.reached successor hmem
    obtain ⟨decoded, -, hlog, hsame⟩ := (sourced_of_run hrun hsound).decoded hmessage
    exact ⟨decoded, hlog, hsame⟩
  committed := by
    intro offset hoffset
    obtain ⟨index, -, other, hother, sent, hsent, rfl⟩ := h.committed offset hoffset
    exact h.covered (List.mem_of_getElem? hother) (List.mem_append_right _ hsent)
  resolved := fun successor hmem offset hoffset =>
    h.covered hmem (List.mem_append_left _ (Option.mem_toList.mpr hoffset))

end Groups

/-- In every run in which the consumers of a group have the partition one after the other or at the
same time, nothing from the default on and before the committed offset or the resolved offset of a
consumer is left out. -/
theorem covers_of_run (settings : Settings) (defaultOffset : Nat)
    (events : List (SuccessionEvent codecs)) (final : Succession codecs)
    (hrun : run (Succession.step settings defaultOffset) Succession.initial events = some final)
    (hsound : Meets (Succession.step settings defaultOffset) (Succession.Sound settings)
      Succession.initial events) : final.Covers defaultOffset :=
  (invariant_of_meets (fun _ _ _ h hok hstep => Linked.step h hok hstep)
    (linked_initial : Linked settings defaultOffset _) hsound hrun).covers

/-! ## A run -/

/-- A consumer handles a message and commits, and the next one is given the offset. -/
def sampleSuccession : List (SuccessionEvent RecordBatch.noCodecs) :=
  [.append (sampleProduced.stored sampleProduced_valid), .join, .consumer 0 .fetch,
    .answer 0 0 2 sampleSurroundings, .consumer 0 .handleBatch, .consumer 0 .nextMessage,
    .consumer 0 .handlerReturns, .consumer 0 (.heartbeat .ok), .consumer 0 (.commit true),
    .commit 0 ⟨1, none⟩, .join]

/-- The sample run is one that the broker may take part in. -/
theorem sampleSuccession_sound : Meets (Succession.step sampleSettings 0)
    (Succession.Sound sampleSettings) Succession.initial sampleSuccession := by
  have happend : (Succession.initial : Succession RecordBatch.noCodecs).step sampleSettings 0
      (.append (sampleProduced.stored sampleProduced_valid)) =
        some { Succession.initial with log := StoredLog.empty.append _ sampleProduced_later } := by
    simp only [Succession.step]
    exact dif_pos sampleProduced_later
  have hfetch : Succession.step sampleSettings 0
      { log := StoredLog.empty.append _ sampleProduced_later
        committed := none
        members := [.new 0] } (.consumer 0 .fetch) =
      some { log := StoredLog.empty.append _ sampleProduced_later
             committed := none
             members := [Successor.update (.new 0) sampleFetching] } := rfl
  refine (meets_cons happend).mpr ⟨trivial, (meets_cons rfl).mpr ⟨trivial,
    (meets_cons hfetch).mpr ⟨rfl, ?_, ?_⟩⟩⟩
  · intro successor hsuccessor
    cases hsuccessor
    exact sampleFetching_sound
  · split
    · refine meets_of_forall (fun event hevent state => ?_) _
      simp only [List.mem_cons, List.not_mem_nil, or_false] at hevent
      rcases hevent with rfl | rfl | rfl | rfl | rfl | rfl | rfl
      all_goals first | exact rfl | exact trivial
    · trivial

/-- The message that the next consumer does not get was delivered. -/
theorem covers_sampleSuccession : ∃ final,
    run (Succession.step sampleSettings 0) Succession.initial sampleSuccession = some final ∧
      final.Covers (0 : Nat) ∧ final.committed = some 1 ∧
      final.members.map Successor.start = [0, 1] := by
  obtain ⟨final, hrun⟩ : ∃ final,
      run (Succession.step sampleSettings 0) Succession.initial sampleSuccession = some final :=
    Option.isSome_iff_exists.mp (by decide +kernel)
  have hfinal : final.committed = some 1 ∧ final.members.map Successor.start = [0, 1] := by
    have hmap : (run (Succession.step sampleSettings 0) Succession.initial sampleSuccession).all
        (fun final => final.committed = some 1 ∧
          final.members.map Successor.start = [0, 1]) = true := by
      decide +kernel
    rw [hrun] at hmap
    simpa using hmap
  exact ⟨final, hrun, covers_of_run sampleSettings 0 sampleSuccession final hrun
    sampleSuccession_sound, hfinal⟩

end KafkaJs.Consumer
