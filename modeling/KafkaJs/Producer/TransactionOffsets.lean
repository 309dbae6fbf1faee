import KafkaJs.Cluster.CommittedOffsets
import KafkaJs.Producer.EosManager.Transactions
import Mathlib.Data.List.TakeWhile

/-!
# The offsets sent in a transaction

`sendOffsets` of a transaction marks its offsets as committed in the cluster as soon as the group
coordinator has answered, before the transaction ends. The map is shared with the consumers of the
group. Nothing is undone when the transaction does not commit: `abort_leaves_offsets` is such a
run. `takesEffect_of_settled` says that the map is right after every transaction, committed or
not, as long as no transaction that sent something new ends without being committed or is left
without an end, and the calls succeed in time and in order.

The machine follows the runs of the eos manager. A commit counts from the moment the coordinator
applies it, also if its answer is lost. The records of the map are objects, so an offset of a topic
whose name they inherit is written to `Object.prototype` or one of its functions; the calls that
succeed send none.
-/

namespace KafkaJs.Producer.TransactionOffsets

open Cluster EosManager Execution

/-- A call of `sendOffsets`: the number of its transaction, its own number, and the offsets in the
order in which its loops go over them. -/
structure Send (τ : Type) where
  transaction : Nat
  number : Nat
  marks : List (GroupPartition τ × Int)

/-- How the last transaction that was begun has ended. `dropped` are those that an abort ends, and
those whose request to end them fails. -/
inductive Outcome where
  | ongoing
  | committed
  | dropped
  deriving DecidableEq, Repr

/-- The eos manager, the call of `sendOffsets` that each of its calls in flight belongs to, and the
map of the cluster. The fields after it are read by the specification only: how many transactions
have begun and how many calls were made, the map at the last begin, the calls of the transaction
that have succeeded, in the order in which they were made, and its outcome. -/
structure State (τ : Type) where
  eosManager : EosManager.State τ
  sends : List (Option (Send τ))
  committedOffsets : CommittedOffsets τ
  begun : Nat
  called : Nat
  before : CommittedOffsets τ
  succeeded : List (Send τ)
  outcome : Outcome

variable {τ : Type}

def initial (committedOffsets : CommittedOffsets τ) : State τ :=
  { eosManager := EosManager.State.initial
    sends := []
    committedOffsets := committedOffsets
    begun := 0
    called := 0
    before := committedOffsets
    succeeded := []
    outcome := .ongoing }

/-- The offsets that the loops of `sendOffsets` go over. -/
def offsetsToMark (consumerGroupId : String) (topics : List (τ × List (Int × Int))) :
    List (GroupPartition τ × Int) :=
  topics.flatMap fun topicOffsets =>
    topicOffsets.2.map fun offset => (⟨consumerGroupId, topicOffsets.1, offset.1⟩, offset.2)

/-- The call comes after those that were made before it. -/
def insertCall (send : Send τ) (succeeded : List (Send τ)) : List (Send τ) :=
  succeeded.takeWhile (fun other => other.number ≤ send.number) ++
    send :: succeeded.dropWhile (fun other => other.number ≤ send.number)

/-- The offsets of several calls. -/
def allMarks (sends : List (Send τ)) : List (GroupPartition τ × Int) := sends.flatMap Send.marks

/-! ## What an event means for the transaction -/

/-- The transaction is committed: at the coordinator, or at once if nothing is recorded. -/
def commits (state : State τ) : Event τ → Bool
  | .commit => !state.eosManager.manager.isOngoing
  | .applied index =>
      match state.eosManager.inFlight[index]? with
      | some { call := .endTxn commit, .. } => commit
      | _ => false
  | _ => false

/-- The transaction ends without being committed: it is aborted, or its last request fails before
the coordinator has applied it. -/
def drops (state : State τ) : Event τ → Bool
  | .abort => !state.eosManager.manager.isOngoing
  | .applied index =>
      match state.eosManager.inFlight[index]? with
      | some { call := .endTxn commit, .. } => !commit
      | _ => false
  | .failed index _ =>
      match state.eosManager.inFlight[index]? with
      | some { call := .endTxn _, stage, .. } => stage ≠ .applied
      | _ => false
  | _ => false

/-- The call of `sendOffsets` that succeeds: its last request is answered. -/
def succeeds (state : State τ) : Event τ → Option (Send τ)
  | .answered index =>
      match state.eosManager.inFlight[index]? with
      | some { call := .txnOffsetCommit, .. } => (state.sends[index]?).join
      | _ => none
  | _ => none

/-- The calls in flight after the event. -/
def followSends (state : State τ) (eosManager : EosManager.State τ) :
    Event τ → List (Option (Send τ))
  | .sendOffsets (some consumerGroupId) (some topics) =>
      if eosManager.inFlight.length = state.eosManager.inFlight.length then state.sends
      else state.sends ++
        [some ⟨state.begun, state.called, offsetsToMark consumerGroupId topics⟩]
  | .addPartitionsToTransaction _ | .commit | .abort =>
      if eosManager.inFlight.length = state.eosManager.inFlight.length then state.sends
      else state.sends ++ [none]
  | .answered index | .failed index _ =>
      if eosManager.inFlight.length = state.eosManager.inFlight.length then state.sends
      else state.sends.eraseIdx index
  | _ => state.sends

variable [DecidableEq τ]

/-- A call of `sendOffsets` has succeeded: its offsets are marked as committed. -/
def State.succeed (state : State τ) (send : Send τ) : State τ :=
  { state with
    committedOffsets := markAll state.committedOffsets send.marks
    succeeded :=
      if send.transaction = state.begun then insertCall send state.succeeded
      else state.succeeded }

/-- The transaction goes on or ends. -/
def State.proceed (state : State τ) (event : Event τ) : State τ :=
  match succeeds state event with
  | some send => state.succeed send
  | none =>
      { state with
        outcome :=
          if commits state event then .committed
          else if drops state event then .dropped
          else state.outcome }

/-- What the event changes beside the eos manager and the calls in flight. -/
def State.follow (state : State τ) : Event τ → State τ
  | .beginTransaction =>
      { state with
        begun := state.begun + 1
        before := state.committedOffsets
        succeeded := []
        outcome := .ongoing }
  | .sendOffsets _ _ => { state with called := state.called + 1 }
  | event => state.proceed event

/-- One event. -/
def step (state : State τ) (event : Event τ) : Option (State τ) :=
  (EosManager.step state.eosManager event).map fun eosManager =>
    { state.follow event with
      eosManager := eosManager
      sends := followSends state eosManager event }

/-! ## What should hold -/

/-- The offsets that were sent take effect exactly if the transaction commits. A transaction that is
ongoing has not committed. -/
structure TakesEffect (state : State τ) : Prop where
  committed : state.outcome = .committed →
    Agrees state.committedOffsets (markAll state.before (allMarks state.succeeded))
  uncommitted : state.outcome ≠ .committed → Agrees state.committedOffsets state.before

/-- No offset is one of a topic whose name every object inherits. -/
def Send.NamesTopics (send : Send String) : Prop :=
  ∀ place ∈ places send.marks, place.topic ∉ Data.inheritedNames

/-- `NamesTopics` is decidable by going through the topics. -/
instance (send : Send String) : Decidable send.NamesTopics :=
  inferInstanceAs (Decidable (∀ _ ∈ _, _))

/-- A transaction ends without being committed only if the offsets it has sent are those that
were committed before it. A call of `sendOffsets` that succeeds in a later transaction than its
own, or after its own was dropped, has sent the offsets that are committed already; and no call
that was made later has succeeded before it for one of its partitions. No call that succeeds has
sent an offset of a topic whose name every object inherits. -/
structure Settled (state : State String) (event : Event String) : Prop where
  drops : drops state event = true → Keeps state.before (allMarks state.succeeded)
  late : ∀ send ∈ succeeds state event,
    send.transaction ≠ state.begun ∨ state.outcome = .dropped →
      Keeps state.committedOffsets send.marks
  inOrder : ∀ send ∈ succeeds state event, send.transaction = state.begun →
    ∀ other ∈ state.succeeded, send.number < other.number →
      ∀ place ∈ places send.marks, place ∉ places other.marks
  names : ∀ send ∈ succeeds state event, send.NamesTopics

/-- `Settled` is decidable by the event. -/
instance (state : State String) (event : Event String) : Decidable (Settled state event) :=
  decidable_of_iff
    ((drops state event = true → Keeps state.before (allMarks state.succeeded)) ∧
      (∀ send ∈ succeeds state event,
        send.transaction ≠ state.begun ∨ state.outcome = .dropped →
          Keeps state.committedOffsets send.marks) ∧
      (∀ send ∈ succeeds state event, send.transaction = state.begun →
        ∀ other ∈ state.succeeded, send.number < other.number →
          ∀ place ∈ places send.marks, place ∉ places other.marks) ∧
      ∀ send ∈ succeeds state event, send.NamesTopics)
    ⟨fun h => ⟨h.1, h.2.1, h.2.2.1, h.2.2.2⟩,
      fun h => ⟨h.drops, h.late, h.inOrder, h.names⟩⟩

/-! ## Calls in order -/

section Calls

variable {send : Send τ} {succeeded : List (Send τ)}

omit [DecidableEq τ]

/-- Behind the place of a call there are only calls that were made later. -/
theorem lt_of_mem_dropWhile
    (hordered : succeeded.Pairwise fun a b => a.number ≤ b.number) :
    ∀ other ∈ succeeded.dropWhile (fun other => other.number ≤ send.number),
      send.number < other.number := by
  induction succeeded with
  | nil => simp
  | cons first rest ih =>
      obtain ⟨hfirst, hrest⟩ := List.pairwise_cons.mp hordered
      intro other hmem
      rw [List.dropWhile_cons] at hmem
      split at hmem
      · exact ih hrest other hmem
      · next hlater =>
          simp only [decide_eq_true_eq] at hlater
          rcases List.mem_cons.mp hmem with rfl | hother
          · omega
          · have hle := hfirst other hother
            omega

/-- The calls stay in the order in which they were made. -/
theorem ordered_insertCall (hordered : succeeded.Pairwise fun a b => a.number ≤ b.number) :
    (insertCall send succeeded).Pairwise fun a b => a.number ≤ b.number := by
  have hbefore : ∀ other ∈ succeeded.takeWhile (fun other => other.number ≤ send.number),
      other.number ≤ send.number := fun other hmem => by
    simpa using List.mem_takeWhile_imp hmem
  have hafter := @lt_of_mem_dropWhile _ send _ hordered
  refine List.pairwise_append.mpr ⟨hordered.sublist (List.takeWhile_sublist _), ?_, ?_⟩
  · exact List.pairwise_cons.mpr ⟨fun other hmem => Nat.le_of_lt (hafter other hmem),
      hordered.sublist (List.dropWhile_sublist _)⟩
  · intro first hfirst second hsecond
    have hle := hbefore first hfirst
    rcases List.mem_cons.mp hsecond with rfl | hlater
    · exact hle
    · have hlt := hafter second hlater
      omega

end Calls

/-! ## The invariant -/

/-- The map is the one at the last begin with the offsets of the calls that have succeeded since,
in the order of the calls; and it is as before if the transaction was dropped. -/
structure Sound (state : State τ) : Prop where
  ordered : state.succeeded.Pairwise fun a b => a.number ≤ b.number
  agrees : Agrees state.committedOffsets (markAll state.before (allMarks state.succeeded))
  dropped : state.outcome = .dropped → Agrees state.committedOffsets state.before

variable {state : State τ}

/-- Before any transaction nothing has taken effect. -/
theorem Sound.initial (committedOffsets : CommittedOffsets τ) :
    Sound (TransactionOffsets.initial committedOffsets) :=
  ⟨List.Pairwise.nil, fun _ => rfl, nofun⟩

/-- A call that is not followed by a later one for its partitions takes its place. -/
theorem agrees_insertCall (before : CommittedOffsets τ) (send : Send τ) {succeeded : List (Send τ)}
    (hordered : succeeded.Pairwise fun a b => a.number ≤ b.number)
    (hinOrder : ∀ other ∈ succeeded, send.number < other.number →
      ∀ place ∈ places send.marks, place ∉ places other.marks) :
    Agrees (markAll before (allMarks (insertCall send succeeded)))
      (markAll (markAll before (allMarks succeeded)) send.marks) := by
  let earlier := succeeded.takeWhile (fun other => other.number ≤ send.number)
  let later := succeeded.dropWhile (fun other => other.number ≤ send.number)
  have hsplit : allMarks succeeded = allMarks earlier ++ allMarks later := by
    rw [allMarks, allMarks, allMarks, ← List.flatMap_append, List.takeWhile_append_dropWhile]
  have hinsert : allMarks (insertCall send succeeded) =
      allMarks earlier ++ send.marks ++ allMarks later := by
    simp [allMarks, insertCall, earlier, later]
  rw [hsplit, hinsert]
  refine markAll_insert before _ _ _ fun place hplace hlater => ?_
  obtain ⟨mark, hmark, hsame⟩ := List.mem_map.mp hlater
  obtain ⟨other, hother, hmem⟩ := List.mem_flatMap.mp hmark
  refine hinOrder other ((List.dropWhile_sublist _).subset hother)
    (lt_of_mem_dropWhile hordered other hother) place hplace ?_
  exact List.mem_map.mpr ⟨mark, hmem, hsame⟩

/-- The offsets of a call are marked. -/
theorem Sound.succeed (h : Sound state) {send : Send τ}
    (hlate : send.transaction ≠ state.begun ∨ state.outcome = .dropped →
      Keeps state.committedOffsets send.marks)
    (hinOrder : send.transaction = state.begun → ∀ other ∈ state.succeeded,
      send.number < other.number → ∀ place ∈ places send.marks, place ∉ places other.marks) :
    Sound (state.succeed send) := by
  have hdropped : state.outcome = .dropped →
      Agrees (markAll state.committedOffsets send.marks) state.before := fun hdropped =>
    (hlate (Or.inr hdropped)).agrees.trans (h.dropped hdropped)
  by_cases hcurrent : send.transaction = state.begun
  · refine ⟨?_, ?_, hdropped⟩
    · show (if send.transaction = state.begun then _ else _ : List (Send τ)).Pairwise _
      rw [if_pos hcurrent]
      exact ordered_insertCall h.ordered
    · show Agrees _ (markAll state.before (allMarks (if send.transaction = state.begun then _ else _)))
      rw [if_pos hcurrent]
      exact (h.agrees.markAll send.marks).trans
        (agrees_insertCall state.before send h.ordered (hinOrder hcurrent)).symm
  · -- what a call of an earlier transaction marks is there already
    refine ⟨?_, ?_, hdropped⟩
    · show (if send.transaction = state.begun then _ else _ : List (Send τ)).Pairwise _
      rw [if_neg hcurrent]
      exact h.ordered
    · show Agrees _ (markAll state.before (allMarks (if send.transaction = state.begun then _ else _)))
      rw [if_neg hcurrent]
      exact (hlate (Or.inl hcurrent)).agrees.trans h.agrees

section Steps

variable {state next : State String} {event : Event String}

/-- Going on with a settled transaction stays sound. -/
theorem Sound.proceed (h : Sound state) (hsettled : Settled state event) :
    Sound (state.proceed event) := by
  unfold State.proceed
  split
  · next send hsend => exact h.succeed (hsettled.late send hsend) (hsettled.inOrder send hsend)
  · refine ⟨h.ordered, h.agrees, fun houtcome => ?_⟩
    dsimp only at houtcome
    split at houtcome
    · cases houtcome
    · split at houtcome
      · next hdrops => exact h.agrees.trans (hsettled.drops hdrops).agrees
      · exact h.dropped houtcome

/-- Following a settled event stays sound. -/
theorem Sound.follow (h : Sound state) (hsettled : Settled state event) :
    Sound (state.follow event) := by
  cases event with
  | beginTransaction => exact ⟨List.Pairwise.nil, fun _ => rfl, nofun⟩
  | sendOffsets consumerGroupId topics => exact ⟨h.ordered, h.agrees, h.dropped⟩
  | addPartitionsToTransaction topicData => exact h.proceed hsettled
  | commit | abort => exact h.proceed hsettled
  | found index | applied index | answered index => exact h.proceed hsettled
  | failed index retry => exact h.proceed hsettled

/-- Every settled step stays sound. -/
theorem Sound.step (h : Sound state) (hsettled : Settled state event)
    (hstep : TransactionOffsets.step state event = some next) : Sound next := by
  obtain ⟨eosManager, -, rfl⟩ := Option.map_eq_some_iff.mp hstep
  have hfollow := h.follow hsettled
  exact ⟨hfollow.ordered, hfollow.agrees, hfollow.dropped⟩

end Steps

/-- The map is right exactly if a transaction that is ongoing has sent nothing new. -/
theorem Sound.takesEffect_iff (h : Sound state) :
    TakesEffect state ↔
      (state.outcome = .ongoing → Keeps state.before (allMarks state.succeeded)) := by
  constructor
  · intro htakesEffect hongoing place _
    have hbefore := htakesEffect.uncommitted (by rw [hongoing]; exact Outcome.noConfusion) place
    exact (h.agrees place).symm.trans hbefore
  · refine fun hkeeps => ⟨fun _ => h.agrees, fun houtcome => ?_⟩
    cases hcases : state.outcome with
    | ongoing => exact h.agrees.trans (hkeeps hcases).agrees
    | committed => exact absurd hcases houtcome
    | dropped => exact h.dropped hcases

/-! ## Runs of a transactional producer -/

/-- In a run in which no transaction that sent new offsets ends without being committed, and the
calls succeed in time and in order, the offsets take effect as documented if and only if the last
transaction has ended or has sent nothing new. -/
theorem takesEffect_of_settled (committedOffsets : CommittedOffsets String)
    {events : List (Event String)} {final : State String}
    (hsettled : Meets step Settled (initial committedOffsets) events)
    (hrun : run step (initial committedOffsets) events = some final) :
    TakesEffect final ↔
      (final.outcome = .ongoing → Keeps final.before (allMarks final.succeeded)) := by
  have hsound : Sound final := invariant_of_meets
    (fun _ _ _ h hsettled hstep => h.step hsettled hstep) (Sound.initial committedOffsets)
    hsettled hrun
  exact hsound.takesEffect_iff

/-- The requests of a call of `sendOffsets` for offset 5 of a partition. -/
def sendFive : List (Event String) :=
  [.sendOffsets (some "g") (some [("orders", [(0, 5)])]), .found 0, .applied 0, .answered 0,
    .found 0, .applied 0, .answered 0]

/-- A transaction that commits, one that sends the same offset again and is aborted, and one that
sends it once more and has no end. -/
def resentFive : List (Event String) :=
  [.beginTransaction] ++ sendFive ++ [.commit, .found 0, .applied 0, .answered 0] ++
    [.beginTransaction] ++ sendFive ++ [.abort, .found 0, .applied 0, .answered 0] ++
      [.beginTransaction] ++ sendFive

/-- The offset is the one that was committed all the time. -/
theorem takesEffect_resent : ∃ final,
    run step (initial Data.InsertionMap.empty) resentFive = some final ∧
      final.outcome = .ongoing ∧
      committedOffset final.committedOffsets ⟨"g", "orders", 0⟩ = some 5 ∧
      TakesEffect final := by
  obtain ⟨final, hrun, hfinal⟩ : ∃ final,
      run step (initial Data.InsertionMap.empty) resentFive = some final ∧
        (final.outcome, committedOffset final.committedOffsets ⟨"g", "orders", 0⟩,
          decide (Keeps final.before (allMarks final.succeeded))) = (.ongoing, some 5, true) :=
    Option.map_eq_some_iff.mp (by decide +kernel)
  rw [Prod.mk.injEq, Prod.mk.injEq, decide_eq_true_eq] at hfinal
  exact ⟨final, hrun, hfinal.1, hfinal.2.1,
    (takesEffect_of_settled _ (by decide +kernel) hrun).mpr fun _ => hfinal.2.2⟩

/-- The transaction is aborted, and the offset that it sent stays committed in the map. -/
theorem abort_leaves_offsets : ∃ final,
    run step (initial Data.InsertionMap.empty)
      ([.beginTransaction] ++ sendFive ++ [.abort, .found 0, .applied 0, .answered 0]) =
        some final ∧
      committedOffset final.before ⟨"g", "orders", 0⟩ = none ∧
      committedOffset final.committedOffsets ⟨"g", "orders", 0⟩ = some 5 ∧
      ¬ TakesEffect final := by
  refine ⟨_, rfl, rfl, rfl, fun htakesEffect => ?_⟩
  have hsame := htakesEffect.uncommitted Outcome.noConfusion ⟨"g", "orders", 0⟩
  exact absurd hsame (by decide +kernel)

end KafkaJs.Producer.TransactionOffsets
