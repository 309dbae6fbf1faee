import KafkaJs.Data.InsertionMap
import KafkaJs.Errors
import KafkaJs.Execution.Run

/-!
# Concurrent joins of a consumer group

Several fetchers and the runner call `joinAndSync`, and nothing serialises the executions. JOIN
writes the ids of the generation into the group; SYNC copies them, and installs its assignment
under the copies after up to three more awaits. So an execution may install the offset manager of
a generation that another one has left behind: `disagrees_slowSync`. `agrees_of_orderly` says
that the offset manager in use is that of the group's generation whenever no join or sync is in
progress, in every run in which no execution installs outdated ids, or gives up a join that it
has begun, as the last one under way.
-/

namespace KafkaJs.Consumer

open Data Execution

/-- Topics and their partitions. -/
abbrev Assignment := List (String × List Int)

/-- The ids that SYNC copies into locals. -/
structure Captured where
  coordinator : Option Int
  generationId : Option Int
  memberId : Option String
  deriving DecidableEq, Repr

/-- Where an execution of `joinAndSync` is. -/
inductive JoinPhase where
  | finding
  | joining
  /-- JOIN has returned, SYNC has not begun. -/
  | joined
  | assigning (captured : Captured)
  | syncing (captured : Captured)
  | refreshing (captured : Captured) (assignment : Assignment)
  /-- The retrier waits for its timer. -/
  | retrying
  | ended
  deriving DecidableEq, Repr

/-- One execution of `joinAndSync`. -/
structure JoinExecution where
  phase : JoinPhase
  retryCount : Nat
  deriving DecidableEq, Repr

/-- What an `OffsetManager` is constructed with. -/
structure ManagerIds where
  coordinator : Option Int
  generationId : Option Int
  memberId : Option String
  memberAssignment : Assignment
  deriving DecidableEq, Repr

/-- The answer of the coordinator to JoinGroup. -/
structure GroupData where
  generationId : Int
  leaderId : String
  memberId : String
  groupProtocol : String
  deriving DecidableEq, Repr

/-- The options of the group. -/
structure MembershipConfig where
  topicsSubscribed : List String
  assigners : List String
  retries : Nat
  deriving DecidableEq, Repr

/-- The fields of `ConsumerGroup` that joining reads and writes, the cluster metadata with the
partitions of every topic, and the executions of `joinAndSync`. `assigned` is the assignment of
the subscription state. -/
structure Membership where
  coordinator : Option Int
  generationId : Option Int
  leaderId : Option String
  memberId : Option String
  groupProtocol : Option String
  metadata : Option (List (String × List Int))
  partitionsPerSubscribedTopic : List (String × List Int)
  assigned : Assignment
  offsetManager : Option ManagerIds
  executions : List JoinExecution
  deriving DecidableEq, Repr

namespace Membership

/-- What may happen next. The answers to JoinGroup and SyncGroup come from the coordinator;
`metadataChanged` is any refresh of the cluster metadata. -/
inductive Event where
  | joinAndSync
  /-- The runner has caught UNKNOWN_MEMBER_ID. -/
  | rejoinAsUnknown
  | coordinatorFound (index : Nat) (coordinator : Int)
  | joinAnswered (index : Nat) (groupData : GroupData)
  | sync (index : Nat)
  | assigned (index : Nat)
  | syncAnswered (index : Nat) (memberAssignment : List (String × List Int))
  | refreshed (index : Nat)
  | fails (index : Nat) (error : KafkaError)
  | retry (index : Nat)
  | metadataChanged (metadata : List (String × List Int))
  deriving DecidableEq, Repr

/-- The fields as the constructor of the group leaves them. -/
def initial : Membership :=
  { coordinator := none
    generationId := none
    leaderId := none
    memberId := none
    groupProtocol := none
    metadata := none
    partitionsPerSubscribedTopic := []
    assigned := []
    offsetManager := none
    executions := [] }

/-- The phase of an execution. -/
def phaseAt (state : Membership) (index : Nat) : Option JoinPhase :=
  state.executions[index]?.map JoinExecution.phase

def setPhase (state : Membership) (index : Nat) (phase : JoinPhase) : Membership :=
  { state with
    executions := state.executions.modify index fun execution => { execution with phase := phase } }

/-- `isLeader`: an empty leader id is falsy. -/
def isLeader (state : Membership) : Bool :=
  state.leaderId ≠ none ∧ state.leaderId ≠ some "" ∧ state.memberId = state.leaderId

/-- UNKNOWN_MEMBER_ID. -/
def isUnknownMember (error : KafkaError) : Bool := error.code = some 25

/-- `findTopicPartitionMetadata`: no partitions for a topic that the metadata does not have, and
an error if it was never loaded. -/
def findTopicPartitionMetadata (state : Membership) (topic : String) : Option (List Int) :=
  state.metadata.map fun topicMetadata => (topicMetadata.lookup topic).getD []

/-- `generatePartitionsPerSubscribedTopic`; the order of the partitions is never looked at. -/
def generatePartitionsPerSubscribedTopic (config : MembershipConfig) (state : Membership) :
    Option (List (String × List Int)) :=
  config.topicsSubscribed.mapM fun topic =>
    (state.findTopicPartitionMetadata topic).map fun partitions => (topic, partitions)

def topicMetadataNotLoaded : KafkaError :=
  { name := .kafkaJSTopicMetadataNotLoaded, message := "Topic metadata not loaded" }

def unsupportedAssigner (groupProtocol : String) : KafkaError :=
  { name := .kafkaJSNonRetriableError
    message := "Unsupported partition assigner \"" ++ groupProtocol ++
      "\", the assigner wasn't found in the assigners list"
    retriable := some false }

/-- What the catch block of `joinAndSync` does to the group before it throws or bails. -/
def reported (state : Membership) (error : KafkaError) : Membership :=
  if isUnknownMember error then { state with memberId := none } else state

/-- The catch block throws a retriable error for these, and bails for all others. -/
def triesAgain (config : MembershipConfig) (state : Membership) (index : Nat)
    (error : KafkaError) : Bool :=
  (isRebalancing error || isUnknownMember error) &&
    (state.executions[index]?).any fun execution => execution.retryCount < config.retries

/-- The catch block and the retrier around it. -/
def fail (config : MembershipConfig) (state : Membership) (index : Nat) (error : KafkaError) :
    Membership :=
  if state.triesAgain config index error then (state.reported error).setPhase index .retrying
  else (state.reported error).setPhase index .ended

/-- SYNC, from the partitions of the subscribed topics to the SyncGroup request. -/
def requestSync (config : MembershipConfig) (state : Membership) (index : Nat)
    (captured : Captured) : Membership :=
  match state.generatePartitionsPerSubscribedTopic config with
  | none => state.fail config index topicMetadataNotLoaded
  | some partitions =>
      { state with partitionsPerSubscribedTopic := partitions }.setPhase index (.syncing captured)

/-- The ids that SYNC copies. -/
def capture (state : Membership) : Captured :=
  ⟨state.coordinator, state.generationId, state.memberId⟩

/-- The assigner of the protocol that the coordinator has chosen. -/
def hasAssigner (config : MembershipConfig) (state : Membership) : Bool :=
  config.assigners.any fun name => some name = state.groupProtocol

/-- The beginning of SYNC. -/
def beginSync (config : MembershipConfig) (state : Membership) (index : Nat) : Membership :=
  if state.isLeader then
    if state.hasAssigner config then state.setPhase index (.assigning state.capture)
    else state.fail config index (unsupportedAssigner (state.groupProtocol.getD ""))
  else state.requestSync config index state.capture

/-- `MemberAssignment.decode`: the last entry of a topic counts. -/
def decode (memberAssignment : List (String × List Int)) : InsertionMap String (List Int) :=
  memberAssignment.foldl (fun map entry => map.set entry.1 entry.2) InsertionMap.empty

/-- The assignment without the topics that are not subscribed to. -/
def currentMemberAssignment (config : MembershipConfig)
    (memberAssignment : List (String × List Int)) : Assignment :=
  (decode memberAssignment).entries.filter fun entry => entry.1 ∈ config.topicsSubscribed

/-- `isAwareOfAllAssignedPartitions`, of every topic. -/
def isAware (state : Membership) (assignment : Assignment) : Bool :=
  assignment.all fun entry =>
    -- every subscribed topic has an entry, so the lookup finds one
    entry.2.all fun partition =>
      partition ∈ (state.partitionsPerSubscribedTopic.lookup entry.1).getD []

/-- The end of SYNC: the new assignment and its offset manager. `assigned()` sorts the partitions
in place, in the arrays that the offset manager has as well. -/
def install (state : Membership) (index : Nat) (captured : Captured) (assignment : Assignment) :
    Membership :=
  { state with
    assigned := assignment
    offsetManager := some
      ⟨captured.coordinator, captured.generationId, captured.memberId, assignment⟩ }.setPhase
        index .ended

/-- SYNC, once the coordinator has answered. -/
def receive (config : MembershipConfig) (state : Membership) (index : Nat) (captured : Captured)
    (memberAssignment : List (String × List Int)) : Membership :=
  if state.isAware (currentMemberAssignment config memberAssignment) then
    state.install index captured (currentMemberAssignment config memberAssignment)
  else
    state.setPhase index
      (.refreshing captured (currentMemberAssignment config memberAssignment))

/-- SYNC, once the metadata has been refreshed for partitions it was not aware of. -/
def installRefreshed (config : MembershipConfig) (state : Membership) (index : Nat)
    (captured : Captured) (assignment : Assignment) : Membership :=
  match state.generatePartitionsPerSubscribedTopic config with
  | none => state.fail config index topicMetadataNotLoaded
  | some partitions =>
      { state with partitionsPerSubscribedTopic := partitions }.install index captured assignment

/-- Phases in which an execution waits for an answer, which may be an error. -/
def isWaiting : JoinPhase → Bool
  | .finding | .joining | .assigning _ | .syncing _ | .refreshing _ _ => true
  | .joined | .retrying | .ended => false

/-- One event. -/
def step (config : MembershipConfig) (state : Membership) : Event → Option Membership
  | .joinAndSync => some { state with executions := state.executions ++ [⟨.finding, 0⟩] }
  | .rejoinAsUnknown =>
      some { state with memberId := none, executions := state.executions ++ [⟨.finding, 0⟩] }
  | .coordinatorFound index coordinator =>
      if state.phaseAt index = some .finding then
        some ({ state with coordinator := some coordinator }.setPhase index .joining)
      else none
  | .joinAnswered index groupData =>
      -- the coordinator hands out increasing generation ids
      if state.phaseAt index = some .joining ∧
          ∀ generationId ∈ state.generationId, generationId < groupData.generationId then
        some ({ state with
          generationId := some groupData.generationId
          leaderId := some groupData.leaderId
          memberId := some groupData.memberId
          groupProtocol := some groupData.groupProtocol }.setPhase index .joined)
      else none
  | .sync index =>
      if state.phaseAt index = some .joined then some (state.beginSync config index) else none
  | .assigned index =>
      match state.phaseAt index with
      | some (.assigning captured) => some (state.requestSync config index captured)
      | _ => none
  | .syncAnswered index memberAssignment =>
      match state.phaseAt index with
      | some (.syncing captured) => some (state.receive config index captured memberAssignment)
      | _ => none
  | .refreshed index =>
      match state.phaseAt index with
      | some (.refreshing captured assignment) =>
          some (state.installRefreshed config index captured assignment)
      | _ => none
  | .fails index error =>
      if (state.phaseAt index).any isWaiting then some (state.fail config index error) else none
  | .retry index =>
      if state.phaseAt index = some .retrying then
        some { state with
          executions := state.executions.modify index fun execution =>
            ⟨.finding, execution.retryCount + 1⟩ }
      else none
  | .metadataChanged metadata => some { state with metadata := some metadata }

/-! ## What should hold -/

/-- Heartbeats, commits and fetches use one generation. -/
structure Agrees (state : Membership) : Prop where
  generationId : ∀ manager ∈ state.offsetManager, manager.generationId = state.generationId
  memberId : ∀ manager ∈ state.offsetManager, manager.memberId = state.memberId
  assignment : ∀ manager ∈ state.offsetManager, manager.memberAssignment = state.assigned

/-- No join or sync is in progress. -/
def Idle (state : Membership) : Prop := ∀ execution ∈ state.executions, execution.phase = .ended

/-- The offset manager in use has the ids of the group. -/
def Matches (state : Membership) : Prop :=
  ∀ manager ∈ state.offsetManager,
    manager.generationId = state.generationId ∧ manager.memberId = state.memberId

/-- `Matches` is decidable by comparing the ids. -/
instance (state : Membership) : Decidable state.Matches :=
  inferInstanceAs (Decidable (∀ manager ∈ state.offsetManager,
    manager.generationId = state.generationId ∧ manager.memberId = state.memberId))

/-- The copied ids are those of the group. -/
def holds (state : Membership) (captured : Captured) : Bool :=
  captured.generationId = state.generationId ∧ captured.memberId = state.memberId

/-- The execution may still install the ids of the group. -/
def pending (state : Membership) : JoinPhase → Bool
  | .finding | .joining | .joined | .retrying => true
  | .assigning captured | .syncing captured | .refreshing captured _ => state.holds captured
  | .ended => false

/-- An execution other than the given one may still install the ids of the group. -/
def pendingBesides (state : Membership) (index : Nat) : Bool :=
  (List.range state.executions.length).any fun other =>
    other ≠ index && (state.phaseAt other).any state.pending

/-- The ids that an execution has copied. -/
def capturedBy : JoinPhase → Option Captured
  | .assigning captured | .syncing captured | .refreshing captured _ => some captured
  | .finding | .joining | .joined | .retrying | .ended => none

/-- The execution has copied the ids of the group, or is not the last one. -/
def CanInstall (state : Membership) (index : Nat) : Prop :=
  ∀ captured ∈ (state.phaseAt index).bind capturedBy,
    state.holds captured ∨ state.pendingBesides index

/-- The offset manager has the ids of the group, or the execution is not the last one. -/
def CanGiveUp (state : Membership) (index : Nat) : Prop :=
  state.Matches ∨ state.pendingBesides index

/-- `CanInstall` is decidable by comparing the ids and looking for other executions. -/
instance (state : Membership) (index : Nat) : Decidable (state.CanInstall index) :=
  inferInstanceAs (Decidable (∀ captured ∈ (state.phaseAt index).bind capturedBy,
    state.holds captured ∨ state.pendingBesides index))

/-- `CanGiveUp` is decidable as its two cases are. -/
instance (state : Membership) (index : Nat) : Decidable (state.CanGiveUp index) :=
  inferInstanceAs (Decidable (_ ∨ _))

/-- What an execution that fails with the error needs. -/
def CanFail (config : MembershipConfig) (state : Membership) (index : Nat) (error : KafkaError) :
    Prop :=
  state.triesAgain config index error = false → (state.reported error).CanGiveUp index

/-- `CanFail` is decidable as whether the execution tries again and `CanGiveUp` are. -/
instance (config : MembershipConfig) (state : Membership) (index : Nat) (error : KafkaError) :
    Decidable (state.CanFail config index error) :=
  inferInstanceAs (Decidable (_ → _))

/-- What the request for the assignment needs: it fails without metadata. -/
def CanRequest (config : MembershipConfig) (state : Membership) (index : Nat) : Prop :=
  state.generatePartitionsPerSubscribedTopic config = none →
    state.CanFail config index topicMetadataNotLoaded

/-- `CanRequest` is decidable as `CanFail` is. -/
instance (config : MembershipConfig) (state : Membership) (index : Nat) :
    Decidable (state.CanRequest config index) :=
  inferInstanceAs (Decidable (_ → _))

/-- No execution installs ids that the group has no more, and none gives up while the offset
manager has other ids than the group, unless another one is pending. -/
def Orderly (config : MembershipConfig) (state : Membership) : Event → Prop
  | .sync index =>
      (state.isLeader = true → state.hasAssigner config = false →
        state.CanFail config index (unsupportedAssigner (state.groupProtocol.getD ""))) ∧
      (state.isLeader = false → state.CanRequest config index)
  | .assigned index => state.CanRequest config index
  | .syncAnswered index memberAssignment =>
      state.isAware (currentMemberAssignment config memberAssignment) → state.CanInstall index
  | .refreshed index =>
      state.CanRequest config index ∧
        (state.generatePartitionsPerSubscribedTopic config ≠ none → state.CanInstall index)
  | .fails index error => state.CanFail config index error
  | _ => True

/-- `Orderly` is decidable event by event. -/
instance (config : MembershipConfig) (state : Membership) :
    ∀ event, Decidable (Orderly config state event)
  | .sync _ => inferInstanceAs (Decidable ((_ → _ → CanFail _ _ _ _) ∧ (_ → CanRequest _ _ _)))
  | .assigned _ => inferInstanceAs (Decidable (CanRequest _ _ _))
  | .syncAnswered _ _ => inferInstanceAs (Decidable (_ → CanInstall _ _))
  | .refreshed _ => inferInstanceAs (Decidable (CanRequest _ _ _ ∧ (_ → CanInstall _ _)))
  | .fails _ _ => inferInstanceAs (Decidable (CanFail _ _ _ _))
  | .joinAndSync | .rejoinAsUnknown | .coordinatorFound _ _ | .joinAnswered _ _ | .retry _
  | .metadataChanged _ => isTrue trivial

/-! ## Phases -/

variable {config : MembershipConfig} {state next : Membership} {index : Nat}

/-- The phase of an execution after one was set. -/
theorem phaseAt_setPhase (state : Membership) (index other : Nat) (phase : JoinPhase) :
    (state.setPhase index phase).phaseAt other =
      if index = other then (state.phaseAt other).map fun _ => phase else state.phaseAt other := by
  simp only [phaseAt, setPhase, List.getElem?_modify]
  split
  · cases state.executions[other]? <;> rfl
  · cases state.executions[other]? <;> rfl

/-- The phase that was set. -/
theorem phaseAt_setPhase_self {phase old : JoinPhase} (hold : state.phaseAt index = some old) :
    (state.setPhase index phase).phaseAt index = some phase := by
  rw [phaseAt_setPhase, if_pos rfl, hold]
  rfl

/-- Setting a phase leaves the other executions alone. -/
theorem phaseAt_setPhase_of_ne {other : Nat} {phase : JoinPhase} (h : other ≠ index) :
    (state.setPhase index phase).phaseAt other = state.phaseAt other := by
  rw [phaseAt_setPhase, if_neg fun hindex => h hindex.symm]

/-- An execution that has just been started. -/
theorem phaseAt_started (state : Membership) :
    phaseAt { state with executions := state.executions ++ [⟨.finding, 0⟩] }
      state.executions.length = some .finding := by
  simp [phaseAt]

/-- Another pending execution, as the specification looks for it. -/
theorem pendingBesides_iff :
    state.pendingBesides index = true ↔
      ∃ other phase, other ≠ index ∧ state.phaseAt other = some phase ∧
        state.pending phase = true := by
  simp only [pendingBesides, List.any_eq_true, List.mem_range, Bool.and_eq_true,
    decide_eq_true_eq, Option.any_eq_true_iff_get]
  constructor
  · rintro ⟨other, -, hother, hsome, hpending⟩
    exact ⟨other, _, hother, (Option.some_get hsome).symm, hpending⟩
  · rintro ⟨other, phase, hother, hphase, hpending⟩
    have hlength : other < state.executions.length := by
      by_contra hlength
      simp [phaseAt, List.getElem?_eq_none (Nat.le_of_not_lt hlength)] at hphase
    exact ⟨other, hlength, hother, by simp [hphase], by simpa [hphase] using hpending⟩

/-! ## What every step preserves -/

/-- The offset manager in use is that of the group, or an execution may still install one that
is. -/
structure Sound (state : Membership) : Prop where
  assignment : ∀ manager ∈ state.offsetManager, manager.memberAssignment = state.assigned
  settled : state.Matches ∨
    ∃ index phase, state.phaseAt index = some phase ∧ state.pending phase = true

/-- At first no execution is under way. -/
theorem Sound.initial : Sound Membership.initial where
  assignment := by
    intro manager hmanager
    cases hmanager
  settled := by
    left
    intro manager hmanager
    cases hmanager

/-- A state with the same offset manager in which an execution is pending. -/
theorem Sound.of_pending (h : Sound state) (hmanager : next.offsetManager = state.offsetManager)
    (hassigned : next.assigned = state.assigned) {phase : JoinPhase}
    (hphase : next.phaseAt index = some phase) (hpending : next.pending phase = true) :
    Sound next where
  assignment := by
    rw [hmanager, hassigned]
    exact h.assignment
  settled := .inr ⟨index, phase, hphase, hpending⟩

/-- An execution goes on to a phase in which it is pending if it was before. -/
theorem Sound.setPhase (h : Sound state) {old phase : JoinPhase}
    (hold : state.phaseAt index = some old)
    (hpending : state.pending old = true → state.pending phase = true) :
    Sound (state.setPhase index phase) where
  assignment := h.assignment
  settled := by
    cases h.settled with
    | inl hmatches => exact .inl hmatches
    | inr hsome =>
        obtain ⟨other, otherPhase, hother, hotherPending⟩ := hsome
        right
        by_cases hindex : other = index
        · subst hindex
          cases hold.symm.trans hother
          exact ⟨other, phase, phaseAt_setPhase_self hold, hpending hotherPending⟩
        · exact ⟨other, otherPhase, (phaseAt_setPhase_of_ne hindex).trans hother, hotherPending⟩

/-- The last but one execution may end as it likes. -/
theorem settled_of_besides (hbesides : state.pendingBesides index = true) (phase : JoinPhase)
    (hexecutions : next.executions = (state.setPhase index phase).executions)
    (hpending : next.pending = state.pending) :
    ∃ other phase, next.phaseAt other = some phase ∧ next.pending phase = true := by
  obtain ⟨other, otherPhase, hother, hphase, hotherPending⟩ := pendingBesides_iff.mp hbesides
  refine ⟨other, otherPhase, ?_, by rwa [hpending]⟩
  have hsame : next.phaseAt other = (state.setPhase index phase).phaseAt other := by
    simp only [phaseAt, hexecutions]
  rw [hsame, phaseAt_setPhase_of_ne hother, hphase]

/-- Only the member id may change before the execution throws or bails. -/
theorem reported_frame (state : Membership) (error : KafkaError) :
    (state.reported error).offsetManager = state.offsetManager ∧
      (state.reported error).assigned = state.assigned ∧
      (state.reported error).executions = state.executions := by
  unfold reported
  split <;> exact ⟨rfl, rfl, rfl⟩

/-- Reporting an error changes no phase. -/
theorem phaseAt_reported (state : Membership) (error : KafkaError) (other : Nat) :
    (state.reported error).phaseAt other = state.phaseAt other := by
  simp only [phaseAt, (reported_frame state error).2.2]

/-- A failed execution waits for its next try, or leaves the group to another one. -/
theorem Sound.fail (h : Sound state) {error : KafkaError} {old : JoinPhase}
    (hold : state.phaseAt index = some old) (hcan : state.CanFail config index error) :
    Sound (state.fail config index error) := by
  obtain ⟨hmanager, hassigned, -⟩ := reported_frame state error
  have hreported : (state.reported error).phaseAt index = some old :=
    (phaseAt_reported state error index).trans hold
  unfold Membership.fail
  split
  · exact h.of_pending hmanager hassigned (phaseAt_setPhase_self hreported) rfl
  · next htries =>
      have hassignment :
          ∀ manager ∈ (state.reported error).offsetManager,
            manager.memberAssignment = (state.reported error).assigned := by
        rw [hmanager, hassigned]
        exact h.assignment
      cases hcan (Bool.not_eq_true _ ▸ htries) with
      | inl hmatches => exact ⟨hassignment, .inl hmatches⟩
      | inr hbesides =>
          exact ⟨hassignment, .inr (settled_of_besides hbesides .ended rfl rfl)⟩

/-- An execution installs the ids of the group, or another one will. -/
theorem Sound.install {captured : Captured} (assignment : Assignment)
    (hcan : state.holds captured = true ∨ state.pendingBesides index = true) :
    Sound (state.install index captured assignment) where
  assignment := by
    intro manager hmanager
    cases hmanager
    rfl
  settled := by
    cases hcan with
    | inl hholds =>
        left
        intro manager hmanager
        cases hmanager
        obtain ⟨hgeneration, hmember⟩ :
            captured.generationId = state.generationId ∧ captured.memberId = state.memberId := by
          simpa [holds] using hholds
        exact ⟨hgeneration, hmember⟩
    | inr hbesides => exact .inr (settled_of_besides hbesides .ended rfl rfl)

/-- A SyncGroup request whose fields are those of the group keeps the state sound. -/
theorem Sound.requestSync (h : Sound state) {captured : Captured} {old : JoinPhase}
    (hold : state.phaseAt index = some old) (hcan : state.CanRequest config index)
    (hpending : state.pending old = true → state.holds captured = true) :
    Sound (state.requestSync config index captured) := by
  unfold Membership.requestSync
  split
  · next hnone => exact h.fail hold (hcan hnone)
  · next partitions hpartitions =>
      have hknown : Sound { state with partitionsPerSubscribedTopic := partitions } :=
        ⟨h.assignment, h.settled⟩
      exact hknown.setPhase hold hpending

/-- What is captured holds when it is captured. -/
theorem holds_capture (state : Membership) : state.holds state.capture = true := by
  simp [holds, capture]

/-- An execution that begins to sync keeps the state sound. -/
theorem Sound.beginSync (h : Sound state) (hold : state.phaseAt index = some .joined)
    (horderly : Orderly config state (.sync index)) : Sound (state.beginSync config index) := by
  unfold Membership.beginSync
  split
  · next hleader =>
      split
      · exact h.setPhase hold fun _ => holds_capture state
      · next hassigner =>
          exact h.fail hold (horderly.1 hleader (Bool.not_eq_true _ ▸ hassigner))
  · next hleader =>
      exact h.requestSync hold (horderly.2 (Bool.not_eq_true _ ▸ hleader))
        fun _ => holds_capture state

/-- What was captured still holds, or another execution is pending. -/
theorem canInstall {phase : JoinPhase} {captured : Captured} (hcan : state.CanInstall index)
    (hphase : state.phaseAt index = some phase) (hcaptured : capturedBy phase = some captured) :
    state.holds captured = true ∨ state.pendingBesides index = true :=
  hcan captured (by simp [hphase, hcaptured])

/-- Every orderly event keeps the membership sound. -/
theorem Sound.step {event : Event} (h : Sound state) (horderly : Orderly config state event)
    (hstep : Membership.step config state event = some next) : Sound next := by
  cases event with
  | joinAndSync =>
      cases hstep
      -- the new execution is pending
      exact h.of_pending rfl rfl (phaseAt_started state) rfl
  | rejoinAsUnknown =>
      cases hstep
      exact h.of_pending rfl rfl (phaseAt_started state) rfl
  | coordinatorFound index coordinator =>
      simp only [Membership.step] at hstep
      split at hstep
      · next hphase =>
          cases hstep
          exact h.of_pending rfl rfl (phaseAt_setPhase_self hphase) rfl
      · cases hstep
  | joinAnswered index groupData =>
      simp only [Membership.step] at hstep
      split at hstep
      · next hphase =>
          cases hstep
          -- whatever the others have copied, this execution has the new ids still to copy
          exact h.of_pending rfl rfl (phaseAt_setPhase_self hphase.1) rfl
      · cases hstep
  | sync index =>
      simp only [Membership.step] at hstep
      split at hstep
      · next hphase =>
          cases hstep
          exact h.beginSync hphase horderly
      · cases hstep
  | assigned index =>
      simp only [Membership.step] at hstep
      split at hstep
      · next captured hphase =>
          cases hstep
          exact h.requestSync hphase horderly id
      · cases hstep
  | syncAnswered index memberAssignment =>
      simp only [Membership.step] at hstep
      split at hstep
      · next captured hphase =>
          cases hstep
          unfold Membership.receive
          split
          · next haware => exact Sound.install _ (canInstall (horderly haware) hphase rfl)
          · exact h.setPhase hphase id
      · cases hstep
  | refreshed index =>
      simp only [Membership.step] at hstep
      split at hstep
      · next captured assignment hphase =>
          cases hstep
          unfold Membership.installRefreshed
          split
          · next hnone => exact h.fail hphase (horderly.1 hnone)
          · next partitions hpartitions =>
              have hsome : state.generatePartitionsPerSubscribedTopic config ≠ none := by
                rw [hpartitions]
                exact Option.some_ne_none _
              have hcan := canInstall (horderly.2 hsome) hphase rfl
              have hknown :
                  holds { state with partitionsPerSubscribedTopic := partitions } captured = true ∨
                    pendingBesides { state with partitionsPerSubscribedTopic := partitions }
                      index = true := hcan
              exact Sound.install _ hknown
      · cases hstep
  | fails index error =>
      simp only [Membership.step] at hstep
      split at hstep
      · next hwaiting =>
          cases hstep
          obtain ⟨phase, hphase⟩ := Option.isSome_iff_exists.mp (Option.isSome_of_any hwaiting)
          exact h.fail hphase horderly
      · cases hstep
  | retry index =>
      simp only [Membership.step] at hstep
      split at hstep
      · next hphase =>
          cases hstep
          obtain ⟨execution, hexecution, -⟩ := Option.map_eq_some_iff.mp hphase
          have hfinding : phaseAt { state with
              executions := state.executions.modify index fun execution =>
                ⟨.finding, execution.retryCount + 1⟩ } index = some .finding := by
            simp [phaseAt, hexecution]
          exact h.of_pending rfl rfl hfinding rfl
      · cases hstep
  | metadataChanged metadata =>
      cases hstep
      exact ⟨h.assignment, h.settled⟩

/-! ## Runs of concurrent joins -/

/-- Where no execution installs outdated ids, or gives up a join that it has begun, as the last
one under way, the offset manager in use has the generation, the member id and the assignment of
the group whenever no join or sync is in progress. -/
theorem agrees_of_orderly {events : List Event} {final : Membership}
    (horderly : Meets (step config) (Orderly config) initial events)
    (hrun : run (step config) initial events = some final) (hidle : final.Idle) :
    final.Agrees := by
  have hsound : Sound final := invariant_of_meets
    (fun _ _ _ h horderly hstep => h.step horderly hstep) Sound.initial horderly hrun
  have hmatches : final.Matches := by
    cases hsound.settled with
    | inl hmatches => exact hmatches
    | inr hsome =>
        obtain ⟨index, phase, hphase, hpending⟩ := hsome
        obtain ⟨execution, hexecution, rfl⟩ := Option.map_eq_some_iff.mp hphase
        -- an ended execution is not pending
        rw [hidle execution (List.mem_of_getElem? hexecution)] at hpending
        cases hpending
  exact ⟨fun manager hmanager => (hmatches manager hmanager).1,
    fun manager hmanager => (hmatches manager hmanager).2, hsound.assignment⟩

/-- A group that subscribes to one topic. -/
def oneTopic : MembershipConfig :=
  { topicsSubscribed := ["t"], assigners := ["RoundRobinAssigner"], retries := 5 }

/-- A follower's answer to JoinGroup. -/
def generation (generationId : Int) : GroupData :=
  { generationId := generationId
    leaderId := "leader"
    memberId := "member"
    groupProtocol := "RoundRobinAssigner" }

/-- Two executions, of which the later one ends last. -/
def overtaken : List Event :=
  [.metadataChanged [("t", [0])], .joinAndSync, .joinAndSync, .coordinatorFound 0 1,
    .coordinatorFound 1 1, .joinAnswered 0 (generation 1), .sync 0,
    .joinAnswered 1 (generation 2), .syncAnswered 0 [("t", [0])], .sync 1,
    .syncAnswered 1 [("t", [0]), ("u", [1])]]

/-- An execution that is overtaken leaves an assignment that agrees. -/
theorem agrees_overtaken : ∃ final,
    run (step oneTopic) initial overtaken = some final ∧
      final.offsetManager = some ⟨some 1, some 2, some "member", [("t", [0])]⟩ ∧
      final.Agrees := by
  obtain ⟨final, hrun, hfinal⟩ : ∃ final, run (step oneTopic) initial overtaken = some final ∧
      (final.offsetManager, final.executions.map JoinExecution.phase) =
        (some ⟨some 1, some 2, some "member", [("t", [0])]⟩, [.ended, .ended]) :=
    Option.map_eq_some_iff.mp (by decide)
  obtain ⟨hmanager, hphases⟩ := Prod.mk.inj hfinal
  have hidle : final.Idle := by
    intro execution hmem
    have hphase : execution.phase ∈ final.executions.map JoinExecution.phase :=
      List.mem_map_of_mem hmem
    rw [hphases] at hphase
    simpa using hphase
  exact ⟨final, hrun, hmanager, agrees_of_orderly (by decide) hrun hidle⟩

/-- The first execution refreshes the metadata for a partition that it is not aware of, while the
second one joins and syncs. -/
def slowSync : List Event :=
  [.metadataChanged [("t", [0])], .joinAndSync, .coordinatorFound 0 1,
    .joinAnswered 0 (generation 1), .sync 0, .syncAnswered 0 [("t", [0, 1])], .joinAndSync,
    .coordinatorFound 1 1, .joinAnswered 1 (generation 2), .sync 1,
    .syncAnswered 1 [("t", [0])], .metadataChanged [("t", [0, 1])], .refreshed 0]

/-- The coordinator hands out generation 2 after generation 1, and the group knows it; its commits
go out with generation 1, and it fetches the partitions of that generation. -/
theorem disagrees_slowSync : ∃ final,
    run (step oneTopic) initial slowSync = some final ∧ final.Idle ∧
      final.generationId = some 2 ∧
      final.offsetManager = some ⟨some 1, some 1, some "member", [("t", [0, 1])]⟩ ∧
      ¬ final.Agrees := by
  refine ⟨_, rfl, ?_, rfl, rfl, fun hagrees => ?_⟩
  · show ∀ execution ∈ _, _
    decide
  · exact absurd (hagrees.generationId _ rfl) (by decide)

end Membership

end KafkaJs.Consumer
