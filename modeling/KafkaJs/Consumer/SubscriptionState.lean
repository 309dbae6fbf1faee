import KafkaJs.Data.InsertionMap
import KafkaJs.Data.Traversal
import KafkaJs.Utils.Number
import Mathlib.Data.Finset.Basic
import Mathlib.Data.Fintype.EquivFin

/-!
# Paused and resumed partitions

`consumer/subscriptionState.js`. The partitions of a topic that are paused are encoded by a flag
and two sets, `TopicState`. `Reference` is what the operations are for: a set of partitions for
each topic, to which `pause` adds and from which `resume` removes.

`Mode` follows, through the operations alone, whether a topic is paused by its partitions or as a
whole, and whether a pause of some partitions came upon a topic paused as a whole: that call
clears the flag, and with it resumes every other partition. `setSemantics_iff` says that the
state follows the reference exactly as long as this does not happen.
-/

namespace KafkaJs.Consumer.Subscription

open Data

/-! ## The state -/

/-- What an operation names: a topic, and partitions of it or, where they are `undefined`, the
whole topic. -/
structure TopicPartitions where
  topic : String
  partitions : Option (List Int) := none
  deriving DecidableEq, Repr

/-- The entry of a topic; `createState` makes the one with the defaults. -/
structure TopicState where
  paused : Finset Int := ∅
  pauseAll : Bool := false
  resumed : Finset Int := ∅
  deriving DecidableEq

/-- What the class can throw. -/
inductive Failure where
  | typeError
  deriving DecidableEq, Repr

structure SubscriptionState where
  assignedPartitionsByTopic : InsertionMap String (List Int) := .empty
  subscriptionStatesByTopic : InsertionMap String TopicState := .empty
  deriving DecidableEq

/-- The loop of `pause` over one topic's partitions, and the whole-topic case. -/
def TopicState.pause (state : TopicState) : Option (List Int) → TopicState
  | none => { paused := ∅, resumed := ∅, pauseAll := true }
  | some partitions =>
      let state := partitions.foldl (fun state partition =>
        { state with
          paused := insert partition state.paused
          resumed := state.resumed.erase partition }) state
      { state with pauseAll := false }

/-- The loop of `resume` over one topic's partitions, and the whole-topic case. -/
def TopicState.resume (state : TopicState) : Option (List Int) → TopicState
  | none => { paused := ∅, resumed := ∅, pauseAll := false }
  | some partitions =>
      partitions.foldl (fun state partition =>
        let state := { state with paused := state.paused.erase partition }
        if state.pauseAll then { state with resumed := insert partition state.resumed }
        else state) state

namespace SubscriptionState

/-- The body of `pause` and `resume` for one entry of the list. For a name inherited from
`Object.prototype` the lookup finds something that is not an entry and has no sets, so that
`clear`, `add` and `delete` cannot be called; an empty list calls none of them. -/
def update (change : TopicState → Option (List Int) → TopicState) (state : SubscriptionState)
    (entry : TopicPartitions) : Except Failure SubscriptionState :=
  if entry.topic ∈ inheritedNames then
    if entry.partitions = some [] then .ok state else .error .typeError
  else
    let current := (state.subscriptionStatesByTopic.get? entry.topic).getD {}
    .ok { state with
      subscriptionStatesByTopic :=
        state.subscriptionStatesByTopic.set entry.topic (change current entry.partitions) }

/-- `pause`. -/
def pause (state : SubscriptionState) (topicPartitions : List TopicPartitions) :
    Except Failure SubscriptionState :=
  topicPartitions.foldlM (update TopicState.pause) state

/-- `resume`. -/
def resume (state : SubscriptionState) (topicPartitions : List TopicPartitions) :
    Except Failure SubscriptionState :=
  topicPartitions.foldlM (update TopicState.resume) state

/-- The reduction of `assign`: the last entry of a topic counts. -/
def assignment (topicPartitions : List TopicPartitions) : InsertionMap String (List Int) :=
  topicPartitions.foldl (fun assigned entry =>
    assigned.set entry.topic (entry.partitions.getD [])) .empty

/-- `assign`. -/
def assign (state : SubscriptionState) (topicPartitions : List TopicPartitions) :
    SubscriptionState :=
  { state with assignedPartitionsByTopic := assignment topicPartitions }

/-- `isPaused`. -/
def isPaused (state : SubscriptionState) (topic : String) (partition : Int) :
    Except Failure Bool :=
  if topic ∈ inheritedNames then .error .typeError
  else
    match state.subscriptionStatesByTopic.get? topic with
    | none => .ok false
    | some state =>
        let partitionResumed := partition ∈ state.resumed
        let partitionPaused := partition ∈ state.paused
        .ok ((state.pauseAll && !partitionResumed) || partitionPaused)

/-- `assigned`: the lists of the state are sorted in place. -/
def assigned (state : SubscriptionState) : List (String × List Int) × SubscriptionState :=
  (state.assignedPartitionsByTopic.nameEntries.map fun entry => (entry.1, Number.sort entry.2),
    { state with
      assignedPartitionsByTopic :=
        ⟨state.assignedPartitionsByTopic.entries.map fun entry => (entry.1, Number.sort entry.2), by
          rw [List.map_map]
          exact state.assignedPartitionsByTopic.nodup⟩ })

/-- The partitions of a topic for which `isPaused` gives `wanted`. -/
def select (state : SubscriptionState) (wanted : Bool) (topic : String) :
    List Int → Except Failure (List Int)
  | [] => .ok []
  | partition :: partitions => do
      let paused ← state.isPaused topic partition
      let rest ← state.select wanted topic partitions
      return if paused = wanted then partition :: rest else rest

/-- `active`. -/
def active (state : SubscriptionState) : Except Failure (List (String × List Int)) :=
  state.assignedPartitionsByTopic.nameEntries.mapM fun (topic, partitions) => do
    return (topic, Number.sort (← state.select false topic partitions))

/-- `paused`: topics without paused partitions are left out. -/
def paused (state : SubscriptionState) : Except Failure (List (String × List Int)) := do
  let topics ← state.assignedPartitionsByTopic.nameEntries.mapM fun (topic, partitions) => do
    return (topic, Number.sort (← state.select true topic partitions))
  return topics.filter fun entry => entry.2.length ≠ 0

end SubscriptionState

/-! ## Sequences of operations -/

/-- An operation. -/
inductive Call where
  | assign (topicPartitions : List TopicPartitions)
  | pause (topicPartitions : List TopicPartitions)
  | resume (topicPartitions : List TopicPartitions)
  deriving DecidableEq, Repr

/-- The operation on the state. -/
def Call.exec (state : SubscriptionState) : Call → Except Failure SubscriptionState
  | .assign topicPartitions => .ok (state.assign topicPartitions)
  | .pause topicPartitions => state.pause topicPartitions
  | .resume topicPartitions => state.resume topicPartitions

/-- The state after a sequence of operations, if none of them throws. -/
def run (calls : List Call) : Except Failure SubscriptionState := calls.foldlM Call.exec {}

/-- The reference: for each topic the partitions that are paused. -/
abbrev Reference := String → Int → Bool

/-- Pausing adds the named partitions, or all. -/
def pausing (partitions : Option (List Int)) (paused : Int → Bool) : Int → Bool :=
  match partitions with
  | none => fun _ => true
  | some partitions => fun partition => decide (partition ∈ partitions) || paused partition

/-- Resuming removes the named partitions, or all. -/
def resuming (partitions : Option (List Int)) (paused : Int → Bool) : Int → Bool :=
  match partitions with
  | none => fun _ => false
  | some partitions => fun partition => paused partition && !decide (partition ∈ partitions)

/-- Fold a change over the entries that name the topic. -/
def foldTopic {σ : Type} (change : Option (List Int) → σ → σ) (topic : String) :
    List TopicPartitions → σ → σ
  | [], value => value
  | entry :: entries, value =>
      foldTopic change topic entries (if entry.topic = topic then change entry.partitions value
        else value)

/-- Fold the operations on a topic, by one change for `pause` and one for `resume`. -/
def foldCalls {σ : Type} (pause resume : Option (List Int) → σ → σ) (topic : String) :
    List Call → σ → σ
  | [], value => value
  | .assign _ :: calls, value => foldCalls pause resume topic calls value
  | .pause entries :: calls, value =>
      foldCalls pause resume topic calls (foldTopic pause topic entries value)
  | .resume entries :: calls, value =>
      foldCalls pause resume topic calls (foldTopic resume topic entries value)

/-- The partitions that are paused after the operations. -/
def reference (calls : List Call) : Reference := fun topic =>
  foldCalls pausing resuming topic calls fun _ => false

/-- How a topic is paused: by its partitions; as a whole; or as a whole with a pause of some
partitions after that. -/
inductive Mode where
  | byPartition
  | whole
  | overridden
  deriving DecidableEq, Repr

def Mode.pause : Option (List Int) → Mode → Mode
  | none, _ => .whole
  | some _, .whole => .overridden
  | some _, mode => mode

def Mode.resume : Option (List Int) → Mode → Mode
  | none, _ => .byPartition
  | some _, mode => mode

/-- How the operations leave a topic. -/
def modeAfter (calls : List Call) (topic : String) : Mode :=
  foldCalls Mode.pause Mode.resume topic calls .byPartition

/-! ## One topic -/

/-- What the entry of a topic says of a partition. -/
def TopicState.isPaused (state : TopicState) (partition : Int) : Bool :=
  (state.pauseAll && !decide (partition ∈ state.resumed)) || decide (partition ∈ state.paused)

/-- How the entry of a topic is related to the reference in each mode. -/
def Tracks (paused : Int → Bool) (state : TopicState) : Mode → Prop
  | .byPartition =>
      state.pauseAll = false ∧ ∀ partition, paused partition = true ↔ partition ∈ state.paused
  | .whole =>
      state.pauseAll = true ∧ state.paused = ∅ ∧
        ∀ partition, paused partition = true ↔ partition ∉ state.resumed
  | .overridden =>
      state.pauseAll = false ∧
        ∃ finite : Finset Int, ∀ partition, partition ∉ finite → paused partition = true

/-- What is paused after a call of `pause` with partitions. -/
theorem mem_paused_pause (partitions : List Int) (state : TopicState) (partition : Int) :
    partition ∈ (state.pause (some partitions)).paused ↔
      partition ∈ partitions ∨ partition ∈ state.paused := by
  induction partitions generalizing state with
  | nil => simp [TopicState.pause]
  | cons first partitions ih =>
      have hrest := ih { state with
        paused := insert first state.paused
        resumed := state.resumed.erase first }
      show partition ∈ (TopicState.pause _ (some partitions)).paused ↔ _
      rw [hrest, Finset.mem_insert, List.mem_cons]
      tauto

/-- What is paused and resumed after a call of `resume` with partitions. -/
theorem resume_some (partitions : List Int) (state : TopicState) :
    (state.resume (some partitions)).pauseAll = state.pauseAll ∧
      (∀ partition, partition ∈ (state.resume (some partitions)).paused ↔
        partition ∈ state.paused ∧ partition ∉ partitions) ∧
      (state.pauseAll = true → ∀ partition,
        partition ∈ (state.resume (some partitions)).resumed ↔
          partition ∈ partitions ∨ partition ∈ state.resumed) := by
  induction partitions generalizing state with
  | nil => simp [TopicState.resume]
  | cons first partitions ih =>
      cases hall : state.pauseAll with
      | true =>
          have hfirst : state.resume (some (first :: partitions)) =
              TopicState.resume
                ⟨state.paused.erase first, true, insert first state.resumed⟩
                (some partitions) := by
            simp [TopicState.resume, hall]
          obtain ⟨hflag, hpaused, hresumed⟩ :=
            ih ⟨state.paused.erase first, true, insert first state.resumed⟩
          rw [hfirst]
          refine ⟨hflag, fun partition => ?_, fun _ partition => ?_⟩
          · rw [hpaused, Finset.mem_erase, List.mem_cons]
            tauto
          · rw [hresumed rfl, Finset.mem_insert, List.mem_cons]
            tauto
      | false =>
          have hfirst : state.resume (some (first :: partitions)) =
              TopicState.resume ⟨state.paused.erase first, false, state.resumed⟩
                (some partitions) := by
            simp [TopicState.resume, hall]
          obtain ⟨hflag, hpaused, -⟩ := ih ⟨state.paused.erase first, false, state.resumed⟩
          rw [hfirst]
          refine ⟨hflag, fun partition => ?_, fun hcontra => by cases hcontra⟩
          rw [hpaused, Finset.mem_erase, List.mem_cons]
          tauto

/-- A pause keeps the entry of a topic related to the reference. -/
theorem Tracks.pause {paused : Int → Bool} {state : TopicState} {mode : Mode}
    (h : Tracks paused state mode) (partitions : Option (List Int)) :
    Tracks (pausing partitions paused) (state.pause partitions) (mode.pause partitions) := by
  cases partitions with
  | none => exact ⟨rfl, rfl, by simp [pausing, TopicState.pause]⟩
  | some partitions =>
      cases mode with
      | byPartition =>
          refine ⟨rfl, fun partition => ?_⟩
          show (decide (partition ∈ partitions) || paused partition) = true ↔ partition ∈ _
          rw [mem_paused_pause, Bool.or_eq_true, decide_eq_true_eq, h.2]
      | whole =>
          refine ⟨rfl, state.resumed, fun partition hpartition => ?_⟩
          show (decide (partition ∈ partitions) || paused partition) = true
          rw [(h.2.2 partition).mpr hpartition, Bool.or_true]
      | overridden =>
          obtain ⟨-, finite, hfinite⟩ := h
          refine ⟨rfl, finite, fun partition hpartition => ?_⟩
          show (decide (partition ∈ partitions) || paused partition) = true
          rw [hfinite partition hpartition, Bool.or_true]

/-- A resume keeps the entry of a topic related to the reference. -/
theorem Tracks.resume {paused : Int → Bool} {state : TopicState} {mode : Mode}
    (h : Tracks paused state mode) (partitions : Option (List Int)) :
    Tracks (resuming partitions paused) (state.resume partitions) (mode.resume partitions) := by
  cases partitions with
  | none => exact ⟨rfl, by simp [resuming, TopicState.resume]⟩
  | some partitions =>
      obtain ⟨hflag, hpaused, hresumed⟩ := resume_some partitions state
      cases mode with
      | byPartition =>
          refine ⟨hflag.trans h.1, fun partition => ?_⟩
          show (paused partition && !decide (partition ∈ partitions)) = true ↔ partition ∈ _
          rw [hpaused, Bool.and_eq_true, h.2]
          simp
      | whole =>
          refine ⟨hflag.trans h.1, Finset.eq_empty_of_forall_notMem fun partition hpartition => ?_,
            fun partition => ?_⟩
          · have hmem := ((hpaused partition).mp hpartition).1
            rw [h.2.1] at hmem
            exact absurd hmem (Finset.notMem_empty partition)
          · show (paused partition && !decide (partition ∈ partitions)) = true ↔ partition ∉ _
            rw [hresumed h.1, Bool.and_eq_true, h.2.2]
            simp only [Bool.not_eq_true', decide_eq_false_iff_not]
            tauto
      | overridden =>
          obtain ⟨hall, finite, hfinite⟩ := h
          refine ⟨hflag.trans hall, finite ∪ partitions.toFinset, fun partition hpartition => ?_⟩
          rw [Finset.mem_union, List.mem_toFinset, not_or] at hpartition
          show (paused partition && !decide (partition ∈ partitions)) = true
          rw [hfinite partition hpartition.1]
          simpa using hpartition.2

/-- The entry agrees with the reference exactly if no pause of some partitions came upon the topic
paused as a whole: after such a call all partitions but finitely many are to be paused, and only
finitely many are. -/
theorem Tracks.isPaused_iff {paused : Int → Bool} {state : TopicState} {mode : Mode}
    (h : Tracks paused state mode) :
    (∀ partition, state.isPaused partition = paused partition) ↔ mode ≠ .overridden := by
  cases mode with
  | byPartition =>
      obtain ⟨hall, hpaused⟩ := h
      refine ⟨fun _ hmode => (nomatch hmode), fun _ partition => ?_⟩
      rw [Bool.eq_iff_iff, hpaused, TopicState.isPaused, hall]
      simp
  | whole =>
      obtain ⟨hall, hempty, hpaused⟩ := h
      refine ⟨fun _ hmode => (nomatch hmode), fun _ partition => ?_⟩
      rw [Bool.eq_iff_iff, hpaused, TopicState.isPaused, hall, hempty]
      simp
  | overridden =>
      obtain ⟨hall, finite, hfinite⟩ := h
      refine ⟨fun hagree => ?_, fun hmode => absurd rfl hmode⟩
      obtain ⟨partition, hpartition⟩ := Infinite.exists_notMem_finset (finite ∪ state.paused)
      rw [Finset.mem_union, not_or] at hpartition
      have hmust := (hagree partition).trans (hfinite partition hpartition.1)
      rw [TopicState.isPaused, hall] at hmust
      simp [hpartition.2] at hmust

/-! ## All topics -/

namespace SubscriptionState

/-- The entry of a topic, or the one that would be made for it. -/
def topicState (state : SubscriptionState) (topic : String) : TopicState :=
  (state.subscriptionStatesByTopic.get? topic).getD {}

/-- For a topic whose name no object inherits, `isPaused` reads the state of the topic. -/
theorem isPaused_eq (state : SubscriptionState) {topic : String} (htopic : topic ∉ inheritedNames)
    (partition : Int) :
    state.isPaused topic partition = .ok ((state.topicState topic).isPaused partition) := by
  rw [isPaused, if_neg htopic, topicState]
  cases state.subscriptionStatesByTopic.get? topic with
  | none => rfl
  | some entry => rfl

/-- For an inherited name `isPaused` throws. -/
theorem isPaused_inherited (state : SubscriptionState) {topic : String}
    (htopic : topic ∈ inheritedNames) (partition : Int) :
    state.isPaused topic partition = .error .typeError := by
  rw [isPaused, if_pos htopic]

end SubscriptionState

/-- Nothing is called on what is found under an inherited name. -/
def TopicPartitions.Harmless (entry : TopicPartitions) : Prop :=
  entry.topic ∈ inheritedNames → entry.partitions = some []

/-- `Harmless` is decidable by the topic's name and its partitions. -/
instance (entry : TopicPartitions) : Decidable entry.Harmless :=
  inferInstanceAs (Decidable (_ → _))

/-- What one entry of a list does to the state. -/
theorem update_ok {change : TopicState → Option (List Int) → TopicState}
    {state next : SubscriptionState} {entry : TopicPartitions}
    (h : state.update change entry = .ok next) :
    entry.Harmless ∧
      next.assignedPartitionsByTopic = state.assignedPartitionsByTopic ∧
      ∀ topic ∉ inheritedNames, next.topicState topic =
        if entry.topic = topic then change (state.topicState topic) entry.partitions
        else state.topicState topic := by
  unfold SubscriptionState.update at h
  split at h
  · next hinherited =>
      split at h
      · next hempty =>
          cases h
          refine ⟨fun _ => hempty, rfl, fun topic htopic => ?_⟩
          rw [if_neg fun heq : entry.topic = topic => htopic (heq ▸ hinherited)]
      · cases h
  · next hown =>
      cases h
      refine ⟨fun hinherited => absurd hinherited hown, rfl, fun topic _ => ?_⟩
      by_cases heq : entry.topic = topic
      · subst heq
        simp [SubscriptionState.topicState]
      · simp [SubscriptionState.topicState, InsertionMap.get?_set, heq, Ne.symm heq]

/-- A harmless entry is applied. -/
theorem update_of_harmless (change : TopicState → Option (List Int) → TopicState)
    (state : SubscriptionState) {entry : TopicPartitions} (h : entry.Harmless) :
    ∃ next, state.update change entry = .ok next := by
  unfold SubscriptionState.update
  split
  · next hinherited => exact ⟨state, if_pos (h hinherited)⟩
  · exact ⟨_, rfl⟩

/-- What the loop of `pause` or `resume` does to the state. -/
theorem foldlM_update_ok {change : TopicState → Option (List Int) → TopicState}
    {entries : List TopicPartitions} {state final : SubscriptionState}
    (h : entries.foldlM (SubscriptionState.update change) state = .ok final) :
    (∀ entry ∈ entries, entry.Harmless) ∧
      final.assignedPartitionsByTopic = state.assignedPartitionsByTopic ∧
      ∀ topic ∉ inheritedNames, final.topicState topic =
        foldTopic (fun partitions entry => change entry partitions) topic entries
          (state.topicState topic) := by
  induction entries generalizing state with
  | nil =>
      cases h
      exact ⟨fun entry hentry => absurd hentry List.not_mem_nil, rfl, fun _ _ => rfl⟩
  | cons entry entries ih =>
      rw [List.foldlM_cons] at h
      obtain ⟨next, hfirst, h⟩ := bind_eq_ok h
      obtain ⟨hharmless, hassigned, htopic⟩ := update_ok hfirst
      obtain ⟨hrest, hassigned', htopic'⟩ := ih h
      refine ⟨List.forall_mem_cons.mpr ⟨hharmless, hrest⟩, hassigned'.trans hassigned,
        fun topic hown => ?_⟩
      rw [htopic' topic hown, htopic topic hown]
      rfl

/-- Harmless entries are applied. -/
theorem foldlM_update_of_harmless (change : TopicState → Option (List Int) → TopicState)
    {entries : List TopicPartitions} (state : SubscriptionState)
    (h : ∀ entry ∈ entries, entry.Harmless) :
    ∃ final, entries.foldlM (SubscriptionState.update change) state = .ok final :=
  foldlM_ok (fun entry hentry state => update_of_harmless change state (h entry hentry)) state

/-- An operation that names no inherited name with something to do for it. -/
def Call.Harmless : Call → Prop
  | .assign entries =>
      ∀ name ∈ inheritedNames, ((SubscriptionState.assignment entries).get? name).getD [] = []
  | .pause entries => ∀ entry ∈ entries, entry.Harmless
  | .resume entries => ∀ entry ∈ entries, entry.Harmless

/-- A harmless call returns. -/
theorem Call.exec_of_harmless (state : SubscriptionState) {call : Call} (h : call.Harmless) :
    ∃ next, call.exec state = .ok next := by
  cases call with
  | assign entries => exact ⟨_, rfl⟩
  | pause entries => exact foldlM_update_of_harmless _ state h
  | resume entries => exact foldlM_update_of_harmless _ state h

/-- The fold of the entries of a topic over the operations. -/
abbrev entryAfter (topic : String) (calls : List Call) (entry : TopicState) : TopicState :=
  foldCalls (fun partitions entry => entry.pause partitions)
    (fun partitions entry => entry.resume partitions) topic calls entry

/-- A call that returns changes the state of a topic as its entries say. -/
theorem Call.exec_ok {state next : SubscriptionState} {call : Call}
    (h : call.exec state = .ok next) {topic : String} (htopic : topic ∉ inheritedNames) :
    next.topicState topic = entryAfter topic [call] (state.topicState topic) := by
  cases call with
  | assign entries =>
      cases h
      rfl
  | pause entries => exact (foldlM_update_ok h).2.2 topic htopic
  | resume entries => exact (foldlM_update_ok h).2.2 topic htopic

/-- The first call and then the others. -/
theorem foldCalls_cons {σ : Type} (pause resume : Option (List Int) → σ → σ) (topic : String)
    (call : Call) (calls : List Call) (value : σ) :
    foldCalls pause resume topic (call :: calls) value =
      foldCalls pause resume topic calls (foldCalls pause resume topic [call] value) := by
  cases call <;> rfl

/-- Calls that return change the state of a topic as all their entries say. -/
theorem foldlM_exec_ok {calls : List Call} {state final : SubscriptionState}
    (h : calls.foldlM Call.exec state = .ok final) {topic : String}
    (htopic : topic ∉ inheritedNames) :
    final.topicState topic = entryAfter topic calls (state.topicState topic) := by
  induction calls generalizing state with
  | nil =>
      cases h
      rfl
  | cons call calls ih =>
      rw [List.foldlM_cons] at h
      obtain ⟨next, hcall, hrest⟩ := bind_eq_ok h
      rw [ih hrest, Call.exec_ok hcall htopic]
      exact (foldCalls_cons _ _ topic call calls _).symm

/-- Harmless calls return. -/
theorem run_of_harmless {calls : List Call} (h : ∀ call ∈ calls, call.Harmless) :
    ∃ state, run calls = .ok state := by
  show ∃ state, calls.foldlM Call.exec {} = .ok state
  exact foldlM_ok (fun call hcall state => Call.exec_of_harmless state (h call hcall)) _

/-- A relation that each change keeps holds after the entries of a list. -/
theorem foldTopic_keeps {α β γ : Type} (related : α → β → γ → Prop)
    {f : Option (List Int) → α → α} {g : Option (List Int) → β → β}
    {h : Option (List Int) → γ → γ}
    (hkeeps : ∀ partitions a b c, related a b c →
      related (f partitions a) (g partitions b) (h partitions c))
    (topic : String) (entries : List TopicPartitions) {a : α} {b : β} {c : γ}
    (hrelated : related a b c) :
    related (foldTopic f topic entries a) (foldTopic g topic entries b)
      (foldTopic h topic entries c) := by
  induction entries generalizing a b c with
  | nil => exact hrelated
  | cons entry entries ih =>
      refine ih ?_
      split
      · exact hkeeps _ _ _ _ hrelated
      · exact hrelated

/-- The entry of a topic stays related to the reference through all operations. -/
theorem tracks_calls (topic : String) (calls : List Call) {paused : Int → Bool}
    {state : TopicState} {mode : Mode} (h : Tracks paused state mode) :
    Tracks (foldCalls pausing resuming topic calls paused) (entryAfter topic calls state)
      (foldCalls Mode.pause Mode.resume topic calls mode) := by
  induction calls generalizing paused state mode with
  | nil => exact h
  | cons call calls ih =>
      cases call with
      | assign entries => exact ih h
      | pause entries =>
          exact ih (foldTopic_keeps Tracks
            (fun partitions _ _ _ htracks => htracks.pause partitions) topic entries h)
      | resume entries =>
          exact ih (foldTopic_keeps Tracks
            (fun partitions _ _ _ htracks => htracks.resume partitions) topic entries h)

/-- After any operations, a topic agrees with the reference exactly if it is not overridden. -/
theorem isPaused_reference_iff {calls : List Call} {state : SubscriptionState}
    (h : run calls = .ok state) {topic : String} (htopic : topic ∉ inheritedNames) :
    (∀ partition, state.isPaused topic partition = .ok (reference calls topic partition)) ↔
      modeAfter calls topic ≠ .overridden := by
  have hstart : Tracks (fun _ => false) {} .byPartition := ⟨rfl, by simp⟩
  have htracks := tracks_calls topic calls hstart
  have hentry : state.topicState topic = entryAfter topic calls {} := foldlM_exec_ok h htopic
  rw [← hentry] at htracks
  rw [modeAfter, ← htracks.isPaused_iff]
  simp only [state.isPaused_eq htopic, Except.ok.injEq, reference]

/-! ## Assigned, active and paused partitions -/

/-- The partitions that a list gives for a topic. -/
def partitionsOf (topic : String) (topics : List (String × List Int)) : List Int :=
  ((topics.find? fun entry => entry.1 = topic).map Prod.snd).getD []

namespace SubscriptionState

/-- For a topic whose name no object inherits, `select` filters the partitions. -/
theorem select_eq (state : SubscriptionState) (wanted : Bool) {topic : String}
    (htopic : topic ∉ inheritedNames) (partitions : List Int) :
    state.select wanted topic partitions =
      .ok (partitions.filter fun partition =>
        (state.topicState topic).isPaused partition = wanted) := by
  induction partitions with
  | nil => rfl
  | cons partition partitions ih =>
      rw [select, state.isPaused_eq htopic, ih, List.filter_cons]
      simp only [decide_eq_true_eq]
      rfl

/-- An inherited name can be asked for no partition. -/
theorem select_inherited (state : SubscriptionState) (wanted : Bool) {topic : String}
    (htopic : topic ∈ inheritedNames) {partitions result : List Int}
    (h : state.select wanted topic partitions = .ok result) : partitions = [] := by
  cases partitions with
  | nil => rfl
  | cons partition partitions =>
      rw [select, state.isPaused_inherited htopic] at h
      cases h

/-- The partitions of a topic for which the state says `wanted`, in the order of the list. -/
def selected (state : SubscriptionState) (wanted : Bool) (entry : String × List Int) : List Int :=
  entry.2.filter fun partition => (state.topicState entry.1).isPaused partition = wanted

end SubscriptionState

/-- The partitions of a topic in lists made from those of another list. -/
theorem partitionsOf_map {f : String → List Int → List Int} (hnil : ∀ topic, f topic [] = [])
    (topic : String) (topics : List (String × List Int)) :
    partitionsOf topic (topics.map fun entry => (entry.1, f entry.1 entry.2)) =
      f topic (partitionsOf topic topics) := by
  induction topics with
  | nil => exact (hnil topic).symm
  | cons entry topics ih =>
      by_cases heq : entry.1 = topic
      · simp [partitionsOf, heq]
      · simpa [partitionsOf, heq] using ih

/-- Leaving out the topics without partitions changes the partitions of none. -/
theorem partitionsOf_filter (topic : String) {topics : List (String × List Int)}
    (hnodup : (topics.map Prod.fst).Nodup) :
    partitionsOf topic (topics.filter fun entry => entry.2.length ≠ 0) =
      partitionsOf topic topics := by
  induction topics with
  | nil => rfl
  | cons entry topics ih =>
      obtain ⟨name, partitions⟩ := entry
      rw [List.map_cons, List.nodup_cons] at hnodup
      have hrest := ih hnodup.2
      by_cases heq : name = topic
      · subst heq
        cases partitions with
        | nil =>
            have habsent : ∀ entry ∈ topics.filter fun entry => entry.2.length ≠ 0,
                ¬ (decide (entry.1 = name) = true) := by
              intro entry hentry hname
              exact hnodup.1 (List.mem_map.mpr
                ⟨entry, List.mem_of_mem_filter hentry, of_decide_eq_true hname⟩)
            rw [List.filter_cons_of_neg (by simp), partitionsOf, List.find?_eq_none.mpr habsent]
            simp [partitionsOf]
        | cons first partitions => simp [partitionsOf]
      · cases partitions with
        | nil => simpa [partitionsOf, heq] using hrest
        | cons first partitions => simpa [partitionsOf, heq] using hrest

namespace SubscriptionState

/-- No inherited name is assigned any partition. -/
def PlainAssignment (state : SubscriptionState) : Prop :=
  ∀ name ∈ inheritedNames, (state.assignedPartitionsByTopic.get? name).getD [] = []

/-- In a plain assignment every topic is selected from. -/
theorem select_of_plain {state : SubscriptionState} (h : state.PlainAssignment) (wanted : Bool)
    {entry : String × List Int} (hentry : entry ∈ state.assignedPartitionsByTopic.nameEntries) :
    state.select wanted entry.1 entry.2 = .ok (state.selected wanted entry) := by
  by_cases htopic : entry.1 ∈ inheritedNames
  · have hget : state.assignedPartitionsByTopic.get? entry.1 = some entry.2 :=
      InsertionMap.mem_entries_iff.mp
        (state.assignedPartitionsByTopic.nameEntries_perm.mem_iff.mp hentry)
    have hempty := h entry.1 htopic
    rw [hget, Option.getD_some] at hempty
    rw [selected, hempty]
    rfl
  · exact state.select_eq wanted htopic entry.2

/-- The topics with the partitions that are paused, or not, before topics are left out. -/
def listing (state : SubscriptionState) (wanted : Bool) : List (String × List Int) :=
  state.assignedPartitionsByTopic.nameEntries.map fun entry =>
    (entry.1, Number.sort (state.selected wanted entry))

/-- In a plain assignment the listing is that of all assigned topics. -/
theorem listing_ok {state : SubscriptionState} (h : state.PlainAssignment) (wanted : Bool) :
    (state.assignedPartitionsByTopic.nameEntries.mapM fun (topic, partitions) => do
      return (topic, Number.sort (← state.select wanted topic partitions))) =
      .ok (state.listing wanted) := by
  refine mapM_ok fun entry hentry => ?_
  show (do return (entry.1, Number.sort (← state.select wanted entry.1 entry.2))) = _
  rw [select_of_plain h wanted hentry]
  rfl

/-- In a plain assignment `active` lists the partitions that are not paused. -/
theorem active_ok {state : SubscriptionState} (h : state.PlainAssignment) :
    state.active = .ok (state.listing false) :=
  listing_ok h false

/-- In a plain assignment `paused` lists the paused partitions, without empty topics. -/
theorem paused_ok {state : SubscriptionState} (h : state.PlainAssignment) :
    state.paused = .ok ((state.listing true).filter fun entry => entry.2.length ≠ 0) := by
  rw [paused, listing_ok h true]
  rfl

/-- `active` returns for plain assignments only. -/
theorem plain_of_active {state : SubscriptionState} {active : List (String × List Int)}
    (h : state.active = .ok active) : state.PlainAssignment := by
  intro name hname
  cases hget : state.assignedPartitionsByTopic.get? name with
  | none => rfl
  | some partitions =>
      have hmem : (name, partitions) ∈ state.assignedPartitionsByTopic.nameEntries :=
        state.assignedPartitionsByTopic.nameEntries_perm.mem_iff.mpr
          (InsertionMap.mem_entries_iff.mpr hget)
      obtain ⟨result, hresult⟩ := of_mapM_ok h (name, partitions) hmem
      cases hselect : state.select false name partitions with
      | error failure =>
          simp only [hselect] at hresult
          cases hresult
      | ok selected => exact state.select_inherited false hname hselect

/-- What a listing has for a topic. -/
theorem partitionsOf_listing (state : SubscriptionState) (wanted : Bool) (topic : String) :
    partitionsOf topic (state.listing wanted) =
      Number.sort (state.selected wanted
        (topic, partitionsOf topic state.assignedPartitionsByTopic.nameEntries)) :=
  partitionsOf_map
    (f := fun topic partitions => Number.sort (state.selected wanted (topic, partitions)))
    (fun _ => rfl) topic _

/-- What is assigned depends on the assignment only. -/
theorem assigned_congr {state next : SubscriptionState}
    (h : next.assignedPartitionsByTopic = state.assignedPartitionsByTopic) :
    next.assigned.1 = state.assigned.1 := by
  show (next.assignedPartitionsByTopic.nameEntries.map
    fun entry => (entry.1, Number.sort entry.2)) =
    state.assignedPartitionsByTopic.nameEntries.map fun entry => (entry.1, Number.sort entry.2)
  rw [h]

/-- For a topic, `assigned` is the disjoint union of `active` and `paused`. -/
def Splits (state : SubscriptionState) (topic : String) : Prop :=
  ∃ active paused, state.active = .ok active ∧ state.paused = .ok paused ∧
    (partitionsOf topic active ++ partitionsOf topic paused).Perm
      (partitionsOf topic state.assigned.1) ∧
    ∀ partition ∈ partitionsOf topic active, partition ∉ partitionsOf topic paused

/-- The assigned partitions split into active and paused ones in plain assignments only. -/
theorem splits_iff (state : SubscriptionState) (topic : String) :
    state.Splits topic ↔ state.PlainAssignment := by
  refine ⟨fun ⟨active, _, hactive, _⟩ => plain_of_active hactive, fun h => ?_⟩
  have hnodup : ((state.listing true).map Prod.fst).Nodup := by
    rw [listing, List.map_map]
    exact (state.assignedPartitionsByTopic.nameEntries_perm.map Prod.fst).nodup_iff.mpr
      state.assignedPartitionsByTopic.nodup
  refine ⟨_, _, active_ok h, paused_ok h, ?_, ?_⟩
  · rw [partitionsOf_filter topic hnodup, partitionsOf_listing, partitionsOf_listing, assigned,
      partitionsOf_map (f := fun _ partitions => Number.sort partitions) (fun _ => rfl)]
    refine ((Number.sort_perm _).append (Number.sort_perm _)).trans
      (List.Perm.trans ?_ (Number.sort_perm _).symm)
    have hsplit := List.filter_append_perm
      (fun partition => !(state.topicState topic).isPaused partition)
      (partitionsOf topic state.assignedPartitionsByTopic.nameEntries)
    simpa [selected] using hsplit
  · intro partition hactive hpaused
    rw [partitionsOf_filter topic hnodup, partitionsOf_listing] at hpaused
    rw [partitionsOf_listing] at hactive
    have hfalse := List.of_mem_filter ((Number.sort_perm _).mem_iff.mp hactive)
    have htrue := List.of_mem_filter ((Number.sort_perm _).mem_iff.mp hpaused)
    rw [decide_eq_true_eq] at hfalse htrue
    rw [hfalse] at htrue
    cases htrue

end SubscriptionState

/-! ## The operations follow the reference -/

/-- A run that ends with a call. -/
theorem run_concat {calls : List Call} {call : Call} {next : SubscriptionState}
    (h : run (calls ++ [call]) = .ok next) :
    ∃ state, run calls = .ok state ∧ call.exec state = .ok next := by
  rw [run, List.foldlM_append] at h
  cases hcalls : calls.foldlM Call.exec {} with
  | error failure =>
      rw [hcalls] at h
      cases h
  | ok state =>
      rw [hcalls] at h
      refine ⟨state, hcalls, ?_⟩
      cases hcall : call.exec state with
      | error failure =>
          have hthrows : Except.error failure = Except.ok next := by
            rw [← h, ← hcall]
            exact (bind_pure (call.exec state)).symm
          cases hthrows
      | ok final =>
          rw [← hcall, ← h]
          exact (bind_pure (call.exec state)).symm

/-- A harmless call keeps the assignment plain. -/
theorem Call.plainAssignment {state next : SubscriptionState} {call : Call}
    (h : call.exec state = .ok next) (hharmless : call.Harmless)
    (hstate : state.PlainAssignment) : next.PlainAssignment := by
  cases call with
  | assign entries =>
      cases h
      exact hharmless
  | pause entries =>
      rw [SubscriptionState.PlainAssignment, (foldlM_update_ok h).2.1]
      exact hstate
  | resume entries =>
      rw [SubscriptionState.PlainAssignment, (foldlM_update_ok h).2.1]
      exact hstate

/-- Harmless calls keep the assignment plain. -/
theorem plainAssignment_of_harmless {calls : List Call} (h : ∀ call ∈ calls, call.Harmless)
    {state : SubscriptionState} (hrun : run calls = .ok state) : state.PlainAssignment := by
  induction calls using List.reverseRecOn generalizing state with
  | nil =>
      cases hrun
      exact fun name _ => rfl
  | append_singleton calls call ih =>
      obtain ⟨before, hbefore, hcall⟩ := run_concat hrun
      rw [List.forall_mem_append] at h
      exact Call.plainAssignment hcall (h.2 call List.mem_cons_self) (ih h.1 hbefore)

/-- After the operations a topic agrees with the reference, and its assigned partitions are the
active and the paused ones. -/
def Follows (calls : List Call) (topic : String) : Prop :=
  ∃ state, run calls = .ok state ∧
    (∀ partition, state.isPaused topic partition = .ok (reference calls topic partition)) ∧
    state.Splits topic

/-- No pause resumes a partition and no resume pauses one, and neither changes what is
assigned. -/
def Keeps (state next : SubscriptionState) (topic : String) : Call → Prop
  | .assign _ => True
  | .pause _ =>
      (∀ partition, state.isPaused topic partition = .ok true →
        next.isPaused topic partition = .ok true) ∧ next.assigned.1 = state.assigned.1
  | .resume _ =>
      (∀ partition, state.isPaused topic partition = .ok false →
        next.isPaused topic partition = .ok false) ∧ next.assigned.1 = state.assigned.1

/-- What `pause` and `resume` are for, on one topic and all along a sequence of operations. -/
def SetSemantics (calls : List Call) (topic : String) : Prop :=
  (∀ before, before <+: calls → Follows before topic) ∧
    ∀ before call state next, before ++ [call] <+: calls → run before = .ok state →
      run (before ++ [call]) = .ok next → Keeps state next topic call

/-- The calls before the last one and then the last one. -/
theorem foldCalls_concat {σ : Type} (pause resume : Option (List Int) → σ → σ) (topic : String)
    (calls : List Call) (call : Call) (value : σ) :
    foldCalls pause resume topic (calls ++ [call]) value =
      foldCalls pause resume topic [call] (foldCalls pause resume topic calls value) := by
  induction calls generalizing value with
  | nil => rfl
  | cons first calls ih =>
      rw [List.cons_append, foldCalls_cons, ih, ← foldCalls_cons]

/-- What is paused stays paused while entries pause. -/
theorem foldTopic_pausing (topic : String) (entries : List TopicPartitions)
    (paused : Int → Bool) {partition : Int} (h : paused partition = true) :
    foldTopic pausing topic entries paused partition = true := by
  induction entries generalizing paused with
  | nil => exact h
  | cons entry entries ih =>
      refine ih _ ?_
      split
      · cases hpartitions : entry.partitions with
        | none => rfl
        | some partitions => simp [pausing, h]
      · exact h

/-- What is not paused stays so while entries resume. -/
theorem foldTopic_resuming (topic : String) (entries : List TopicPartitions)
    (paused : Int → Bool) {partition : Int} (h : paused partition = false) :
    foldTopic resuming topic entries paused partition = false := by
  induction entries generalizing paused with
  | nil => exact h
  | cons entry entries ih =>
      refine ih _ ?_
      split
      · cases hpartitions : entry.partitions with
        | none => rfl
        | some partitions => simp [resuming, h]
      · exact h

/-- Where a topic agrees with the reference before and after an operation, the operation only
adds to the paused partitions or only takes from them. -/
theorem keeps_of_follows {calls : List Call} {call : Call} {state next : SubscriptionState}
    {topic : String} (hcall : call.exec state = .ok next)
    (hbefore : ∀ partition, state.isPaused topic partition = .ok (reference calls topic partition))
    (hafter : ∀ partition,
      next.isPaused topic partition = .ok (reference (calls ++ [call]) topic partition)) :
    Keeps state next topic call := by
  cases call with
  | assign entries => trivial
  | pause entries =>
      refine ⟨fun partition hpaused => ?_, ?_⟩
      · rw [hbefore] at hpaused
        rw [hafter, reference, foldCalls_concat]
        exact congrArg Except.ok (foldTopic_pausing topic entries _ (Except.ok.inj hpaused))
      · exact SubscriptionState.assigned_congr (foldlM_update_ok hcall).2.1
  | resume entries =>
      refine ⟨fun partition hpaused => ?_, ?_⟩
      · rw [hbefore] at hpaused
        rw [hafter, reference, foldCalls_concat]
        exact congrArg Except.ok (foldTopic_resuming topic entries _ (Except.ok.inj hpaused))
      · exact SubscriptionState.assigned_congr (foldlM_update_ok hcall).2.1

/-- Where all calls follow the sets, the last one is harmless. -/
theorem harmless_of_follows {calls : List Call} {call : Call} {topic : String}
    (h : Follows (calls ++ [call]) topic) : call.Harmless := by
  obtain ⟨next, hrun, -, hsplits⟩ := h
  obtain ⟨state, -, hcall⟩ := run_concat hrun
  cases call with
  | assign entries =>
      cases hcall
      exact (SubscriptionState.splits_iff _ topic).mp hsplits
  | pause entries => exact (foldlM_update_ok hcall).1
  | resume entries => exact (foldlM_update_ok hcall).1

/-- A topic follows the reference through a sequence of operations exactly if nothing is asked
for a name inherited from `Object.prototype` and no pause of some of its partitions comes upon it
while it is paused as a whole. -/
theorem setSemantics_iff (calls : List Call) (topic : String) :
    SetSemantics calls topic ↔
      topic ∉ inheritedNames ∧ (∀ call ∈ calls, call.Harmless) ∧
        ∀ before, before <+: calls → modeAfter before topic ≠ .overridden := by
  constructor
  · rintro ⟨hfollows, -⟩
    have htopic : topic ∉ inheritedNames := by
      obtain ⟨state, -, hpaused, -⟩ := hfollows [] List.nil_prefix
      intro hinherited
      have hthrows := (state.isPaused_inherited hinherited 0).symm.trans (hpaused 0)
      cases hthrows
    refine ⟨htopic, fun call hcall => ?_, fun before hbefore => ?_⟩
    · obtain ⟨before, after, rfl⟩ := List.append_of_mem hcall
      have hprefix : before ++ [call] <+: before ++ call :: after := ⟨after, by simp⟩
      exact harmless_of_follows (hfollows _ hprefix)
    · obtain ⟨state, hrun, hpaused, -⟩ := hfollows before hbefore
      exact (isPaused_reference_iff hrun htopic).mp hpaused
  · rintro ⟨htopic, hharmless, hmode⟩
    have hagrees (before : List Call) (hbefore : before <+: calls) {state : SubscriptionState}
        (hrun : run before = .ok state) :=
      (isPaused_reference_iff hrun htopic).mpr (hmode before hbefore)
    refine ⟨fun before hbefore => ?_, fun before call state next hprefix hstate hnext => ?_⟩
    · have hbefores := fun call hcall => hharmless call (hbefore.subset hcall)
      obtain ⟨state, hrun⟩ := run_of_harmless hbefores
      exact ⟨state, hrun, hagrees before hbefore hrun,
        (state.splits_iff topic).mpr (plainAssignment_of_harmless hbefores hrun)⟩
    · obtain ⟨start, hstart, hcall⟩ := run_concat hnext
      obtain rfl : state = start := Except.ok.inj (hstate.symm.trans hstart)
      have hbefore : before <+: calls := (List.prefix_append before [call]).trans hprefix
      exact keeps_of_follows hcall (hagrees before hbefore hstate) (hagrees _ hprefix hnext)

/-- Pausing partition 1 of a topic that is paused as a whole resumes partition 0. -/
theorem not_setSemantics_pauseWithin :
    ¬ SetSemantics [.pause [⟨"topic", none⟩], .pause [⟨"topic", some [1]⟩]] "topic" := by
  rintro ⟨hfollows, -⟩
  obtain ⟨state, hrun, hpaused, -⟩ := hfollows _ List.prefix_rfl
  have hzero := hpaused 0
  cases hrun
  exact absurd hzero (by decide)

end KafkaJs.Consumer.Subscription
