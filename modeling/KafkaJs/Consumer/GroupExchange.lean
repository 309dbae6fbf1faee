import KafkaJs.Consumer.RoundRobinAssigner
import KafkaJs.Data.Grouping

/-!
# Assigning partitions within a group

`[PRIVATE.SYNC]` of `consumer/consumerGroup.js`, over all members of a generation: the leader has
the partitions of its topics assigned and sends the assignments, the coordinator relays them, and
every member installs what it is relayed without the topics that it has not subscribed to.
`installs_of_joined` says that the partitions are divided among the members, from the metadata of
the leader to what the members will fetch.

`checkForStaleAssignment` compares the metadata with what was known when the assignment was made.
`stale_iff` says that the leader notices exactly the partitions that no member was assigned.
-/

namespace KafkaJs.Consumer.GroupExchange

open Data Protocol AssignerProtocol SyncGroup RoundRobinAssigner

/-- The fields of a consumer group that SYNC reads, when JoinGroup has been answered. The ids of
all members are known to the leader only. `findTopicPartitionMetadata` are the ids of the
partitions that the cluster metadata has for a topic. -/
structure ConsumerGroup where
  groupId : Text
  generationId : Int
  memberId : Text
  leaderId : Text
  members : List Text
  topicsSubscribed : List Text
  findTopicPartitionMetadata : Text → List Int

/-- What SYNC leaves behind: the assignment of the subscription state and the offset manager, and
the partitions that were known. -/
structure Synced where
  memberId : Text
  currentMemberAssignment : List (Text × List Int)
  partitionsPerSubscribedTopic : InsertionMap Text (List Int)

/-- `KafkaJSStaleTopicMetadataAssignment`. -/
structure StaleTopicMetadataAssignment where
  message : String
  topic : Text
  unknownPartitions : List Int

/-- `arrayDiff`. -/
def arrayDiff (a b : List Text) : List Text := a.filter fun item => item ∉ b

namespace ConsumerGroup

/-- `isLeader`: an empty leader id is falsy. -/
def isLeader (group : ConsumerGroup) : Bool :=
  group.leaderId ≠ [] ∧ group.memberId = group.leaderId

/-- The group assignment, by the round robin assigner. -/
def groupAssignment (builtins : Builtins) (group : ConsumerGroup) :
    Except KafkaError (List GroupAssignment) :=
  if group.isLeader then
    assign builtins group.findTopicPartitionMetadata group.members group.topicsSubscribed
  else pure []

/-- The SyncGroup request. -/
def request (builtins : Builtins) (group : ConsumerGroup) : Except KafkaError Request := do
  let groupAssignment ← group.groupAssignment builtins
  pure { groupId := group.groupId
         generationId := group.generationId
         memberId := group.memberId
         groupAssignment }

/-- `generatePartitionsPerSubscribedTopic`; the order of the partitions is never looked at. -/
def generatePartitionsPerSubscribedTopic (group : ConsumerGroup) : InsertionMap Text (List Int) :=
  group.topicsSubscribed.foldl
    (fun map topic => map.set topic (group.findTopicPartitionMetadata topic)) .empty

/-- The assignment without the topics that are not subscribed to. -/
def currentMemberAssignment (group : ConsumerGroup) (decodedAssignment : TopicRecord) :
    List (Text × List Int) :=
  let assignedTopics := decodedAssignment.ownEntries.map Prod.fst
  let topicsNotSubscribed := arrayDiff assignedTopics group.topicsSubscribed
  let safeAssignment := arrayDiff assignedTopics topicsNotSubscribed
  safeAssignment.map fun topic => (topic, (decodedAssignment.get? topic).getD [])

/-- `isAwareOfAllAssignedPartitions`, of every topic. -/
def isAware (partitionsPerSubscribedTopic : InsertionMap Text (List Int))
    (assignment : List (Text × List Int)) : Bool :=
  assignment.all fun entry =>
    entry.2.all fun partition =>
      partition ∈ (partitionsPerSubscribedTopic.get? entry.1).getD []

/-- The group once its metadata has been refreshed. -/
def refreshed (group : ConsumerGroup) (findTopicPartitionMetadata : Text → List Int) :
    ConsumerGroup :=
  { group with findTopicPartitionMetadata }

/-- The end of SYNC, where `latest` is the metadata that a refresh would bring. -/
def install (latest : Text → List Int) (group : ConsumerGroup) (decodedAssignment : TopicRecord) :
    Synced :=
  let known := group.generatePartitionsPerSubscribedTopic
  let assignment := group.currentMemberAssignment decodedAssignment
  { memberId := group.memberId
    currentMemberAssignment := assignment
    partitionsPerSubscribedTopic :=
      if isAware known assignment then known
      else (group.refreshed latest).generatePartitionsPerSubscribedTopic }

/-- `[PRIVATE.SYNC]`. `syncGroup` is how the coordinator answers a request. -/
def sync (builtins : Builtins) (syncGroup : Bytes → Except KafkaError Bytes)
    (latest : Text → List Int) (group : ConsumerGroup) : Except KafkaError Synced := do
  let request ← group.request builtins
  let encoder ← request.encode
  let rawData ← syncGroup encoder.buffer
  match ← receive rawData with
  | some decoded => pure (group.install latest decoded.assignment)
  | none => pure (group.install latest .empty)

/-- The partitions of a topic that were not known. -/
def unknownPartitions (known : InsertionMap Text (List Int)) (entry : Text × List Int) :
    List Int :=
  entry.2.filter fun partition => partition ∉ (known.get? entry.1).getD []

/-- `checkForStaleAssignment`, for a group that has synced; its topics have not changed since. -/
def checkForStaleAssignment (group : ConsumerGroup) (synced : Synced) :
    Except StaleTopicMetadataAssignment Unit :=
  group.generatePartitionsPerSubscribedTopic.entries.forM fun entry =>
    let diff := unknownPartitions synced.partitionsPerSubscribedTopic entry
    if diff.length > 0 then
      throw { message := "Topic has been updated", topic := entry.1, unknownPartitions := diff }
    else pure ()

end ConsumerGroup

/-- The partitions that a member has installed. -/
def Synced.partitions (synced : Synced) : List (Text × TopicPartition) :=
  synced.currentMemberAssignment.flatMap fun entry =>
    entry.2.map fun partitionId => (synced.memberId, ⟨entry.1, partitionId⟩)

/-- The answer to a member, once the request of the leader is there. -/
def answer (throttleTime : Int) (leaderRequest : Bytes) (memberId : Text) :
    Except KafkaError Bytes := do
  let parsed ← parse leaderRequest
  pure (relay throttleTime (parsed.assignmentOf memberId))

/-- SYNC of all members. -/
def exchange (builtins : Builtins) (throttleTime : Int) (latest : Text → List Int)
    (leader : ConsumerGroup) (groups : List ConsumerGroup) : Except KafkaError (List Synced) := do
  let request ← leader.request builtins
  let encoder ← request.encode
  groups.mapM fun group =>
    group.sync builtins (fun _ => answer throttleTime encoder.buffer group.memberId) latest

/-! ## What a member installs -/

section Member

variable {builtins : Builtins} {group : ConsumerGroup}

/-- The difference has what is in the first list only. -/
theorem mem_arrayDiff {a b : List Text} {item : Text} :
    item ∈ arrayDiff a b ↔ item ∈ a ∧ item ∉ b := by
  rw [arrayDiff, List.mem_filter, decide_eq_true_eq]

/-- Taking off what is not subscribed to leaves what is. -/
theorem arrayDiff_arrayDiff (assigned subscribed : List Text) :
    arrayDiff assigned (arrayDiff assigned subscribed) =
      assigned.filter fun topic => topic ∈ subscribed := by
  refine List.filter_congr fun topic htopic => ?_
  rw [decide_eq_decide, mem_arrayDiff]
  exact ⟨fun hkept => not_not.mp fun hnot => hkept ⟨htopic, hnot⟩,
    fun hsubscribed hdropped => hdropped.2 hsubscribed⟩

/-- The topics that are subscribed to, with all of their partitions. -/
theorem currentMemberAssignment_eq (decodedAssignment : TopicRecord) :
    group.currentMemberAssignment decodedAssignment =
      decodedAssignment.ownEntries.filter fun entry => entry.1 ∈ group.topicsSubscribed := by
  have hvalue : ∀ entry ∈ decodedAssignment.ownEntries,
      (entry.1, (decodedAssignment.get? entry.1).getD []) = entry := fun entry hentry => by
    rw [InsertionMap.mem_entries_iff.mp (decodedAssignment.ownEntries_perm.mem_iff.mp hentry)]
    rfl
  rw [ConsumerGroup.currentMemberAssignment, arrayDiff_arrayDiff, List.filter_map, List.map_map]
  exact (List.map_congr_left fun entry hentry =>
    hvalue entry (List.mem_of_mem_filter hentry)).trans (List.map_id _)

/-- The partitions of an assignment that a member installs. -/
theorem partitions_perm {memberId : Text} {decodedAssignment : TopicRecord}
    {known : InsertionMap Text (List Int)} :
    (Synced.partitions ⟨memberId, group.currentMemberAssignment decodedAssignment, known⟩).Perm
      (((flatTopics decodedAssignment).map (Prod.mk memberId)).filter
        fun entry => entry.2.topic ∈ group.topicsSubscribed) := by
  have htopic : ∀ entry : Text × List Int, ∀ installed ∈
      entry.2.map fun partitionId => (memberId, TopicPartition.mk entry.1 partitionId),
      decide (installed.2.topic ∈ group.topicsSubscribed) =
        decide (entry.1 ∈ group.topicsSubscribed) := by
    intro entry installed hinstalled
    obtain ⟨partitionId, -, rfl⟩ := List.mem_map.mp hinstalled
    rfl
  rw [Synced.partitions, currentMemberAssignment_eq, flatMap_filter_of_class htopic, flatTopics,
    List.map_flatMap]
  simp only [List.map_map]
  exact (decodedAssignment.ownEntries_perm.flatMap_right _).filter _

/-- What is known are the partitions of the topics that are subscribed to. -/
theorem get?_generatePartitionsPerSubscribedTopic (group : ConsumerGroup) (topic : Text) :
    group.generatePartitionsPerSubscribedTopic.get? topic =
      if topic ∈ group.topicsSubscribed then some (group.findTopicPartitionMetadata topic)
      else none := by
  rw [ConsumerGroup.generatePartitionsPerSubscribedTopic]
  induction group.topicsSubscribed using List.reverseRecOn with
  | nil => rfl
  | append_singleton topics last ih =>
      rw [List.foldl_append, List.foldl_cons, List.foldl_nil, InsertionMap.get?_set, ih]
      by_cases heq : topic = last
      · rw [if_pos heq, if_pos (List.mem_append_right _ (List.mem_singleton.mpr heq)), heq]
      · rw [if_neg heq]
        refine if_congr ?_ rfl rfl
        rw [List.mem_append, List.mem_singleton, or_iff_left heq]

end Member

/-! ## The request of the leader -/

section Leader

variable {builtins : Builtins} {entries : List (Text × TopicRecord)}

/-- A member of the exchange, with what it was dealt. -/
def memberOf (entry : Text × TopicRecord) : Member :=
  { memberId := entry.1, version := 0, assignment := entry.2, userData := [] }

/-- The members that are encoded one by one are those of the group assignment. -/
theorem mapM_groupAssignment {groupAssignment : List GroupAssignment}
    (h : entries.mapM encodeMember = .ok groupAssignment) :
    (entries.map memberOf).mapM Member.groupAssignment = .ok groupAssignment := by
  rw [List.mapM_map]
  exact h

/-- Without user data, what is sent is the encoding of what was dealt, of any size. -/
theorem eq_sent_of_mapM {groupAssignment : List GroupAssignment}
    (h : entries.mapM encodeMember = .ok groupAssignment) :
    groupAssignment = (entries.map memberOf).map Member.sent := by
  rw [List.map_map]
  refine eq_map_of_mapM_ok h fun entry _ encoded hencoded => ?_
  obtain ⟨bytes, hbytes, hresult⟩ := bind_eq_ok hencoded
  cases hresult
  rw [MemberAssignment.encode_nil_eq hbytes]
  rfl

/-- Members that were dealt something are entries of the record, and no others. -/
theorem mem_keys_of_foldlM {deals : List (Text × TopicPartition)}
    {state next : RoundRobinAssigner.State}
    (h : deals.foldlM (assignPartition builtins) state = .ok next) {memberId : Text}
    (hmem : memberId ∈ next.assignment.keys) :
    memberId ∈ state.assignment.keys ∨ memberId ∈ deals.map Prod.fst := by
  induction deals generalizing state with
  | nil =>
      cases h
      exact .inl hmem
  | cons entry deals ih =>
      rw [List.foldlM_cons] at h
      obtain ⟨middle, hstep, hrest⟩ := bind_eq_ok h
      rw [List.map_cons, List.mem_cons]
      rcases ih hrest with hmiddle | hlater
      · unfold assignPartition at hstep
        dsimp only at hstep
        split at hstep
        · cases hstep
          exact (InsertionMap.mem_keys_set.mp hmiddle).symm.imp_right .inl
        · split at hstep
          · split at hstep
            · cases hstep
            · cases hstep
              exact .inl hmiddle
          · cases hstep
            exact (InsertionMap.mem_keys_set.mp hmiddle).symm.imp_right .inl
      · exact .inr (.inr hlater)

end Leader

/-! ## The whole group -/

section Group

variable {builtins : Builtins} {leader : ConsumerGroup} {groups : List ConsumerGroup}

/-- A generation of a group. JoinGroup has told all members who the leader is, and the leader who
the members are. -/
structure Joined (leader : ConsumerGroup) (groups : List ConsumerGroup) : Prop where
  leads : leader.isLeader = true
  belongs : leader ∈ groups
  memberIds : (groups.map ConsumerGroup.memberId).Nodup
  members : leader.members.Perm (groups.map ConsumerGroup.memberId)

/-- The requests of a generation can be sent: each of them can be encoded, and that of the leader
can be framed. -/
structure Sendable (builtins : Builtins) (leader : ConsumerGroup) (groups : List ConsumerGroup)
    (request : Request) (encoder : Encoder) (throttleTime : Int) : Prop where
  requested : leader.request builtins = .ok request
  encoded : request.encode = .ok encoder
  others : ∀ group ∈ groups, ∃ request encoder,
    group.request builtins = .ok request ∧ request.encode = .ok encoder
  size : request.bytes.length < 2 ^ 31
  throttleTime : FitsInt 4 throttleTime

/-- The names are such that nothing is lost: ids and topics come back as they were sent, and no
member that is dealt a partition has a name that every object has. Topics and partitions are listed
once. -/
structure Named (leader : ConsumerGroup) : Prop where
  memberIds : ∀ memberId ∈ leader.members, memberId.toWellFormed = memberId
  assignable : Assignable leader.findTopicPartitionMetadata leader.members
    leader.topicsSubscribed
  topics : leader.topicsSubscribed.Nodup
  partitions : ∀ topic ∈ leader.topicsSubscribed, (leader.findTopicPartitionMetadata topic).Nodup

/-- What a member decodes. -/
def decodedFor (assignment : InsertionMap Text TopicRecord) (memberId : Text) : TopicRecord :=
  ((assignment.get? memberId).map MemberAssignment.received).getD .empty

/-- The partitions that are dealt come to members of the group. -/
theorem mem_of_dealt {playerTurns : List TopicPartition} {members : List Text} {memberId : Text}
    (hmembers : members ≠ [])
    (h : memberId ∈ (deal (assigneeAt (Text.sort members)) playerTurns).map Prod.fst) :
    memberId ∈ (Text.sort members).take playerTurns.length := by
  obtain ⟨entry, hentry, rfl⟩ := List.mem_map.mp h
  obtain ⟨turn, hturn, hplayer, -⟩ := mem_deal hentry
  have hsorted : Text.sort members ≠ [] := fun hnil =>
    hmembers (List.nil_perm.mp (hnil ▸ Text.sort_perm members))
  rw [hplayer]
  exact assigneeAt_mem_take hsorted hturn

/-- What the request of the leader was made of. -/
theorem assignment_of_request {request : Request} (hleads : leader.isLeader = true)
    (h : leader.request builtins = .ok request) :
    ∃ state, (deal (assigneeAt (Text.sort leader.members)) (topicsPartitions
        leader.findTopicPartitionMetadata leader.topicsSubscribed)).foldlM
          (assignPartition builtins) {} = .ok state ∧
      state.assignment.ownEntries.mapM encodeMember = .ok request.groupAssignment := by
  obtain ⟨groupAssignment, hassign, hrequest⟩ := bind_eq_ok h
  cases hrequest
  rw [ConsumerGroup.groupAssignment, if_pos hleads] at hassign
  exact bind_eq_ok hassign

/-- The request of the leader is one that the exchange can relay. -/
theorem Sendable.sends {request : Request} {encoder : Encoder} {throttleTime : Int}
    (h : Sendable builtins leader groups request encoder throttleTime)
    {assignment : InsertionMap Text TopicRecord}
    (hassign : assignment.ownEntries.mapM encodeMember = .ok request.groupAssignment) :
    Sends (assignment.ownEntries.map memberOf) request encoder throttleTime where
  memberIds := by
    rw [List.map_map]
    exact assignment.ownEntries_nodup
  groupAssignment := mapM_groupAssignment hassign
  encoded := h.encoded
  size := by
    rw [← eq_sent_of_mapM hassign]
    exact h.size
  throttleTime := h.throttleTime

/-- A member receives what it was dealt, and nothing if it was dealt nothing. -/
theorem receive_assignmentOf {request : Request} {encoder : Encoder} {throttleTime : Int}
    {assignment : InsertionMap Text TopicRecord}
    (h : Sends (assignment.ownEntries.map memberOf) request encoder throttleTime)
    (hsame : request.seen.groupAssignment = request.groupAssignment) (memberId : Text) :
    receive (relay throttleTime (request.seen.assignmentOf memberId)) =
      .ok ((assignment.get? memberId).map fun topics =>
        ⟨0, MemberAssignment.received topics, some []⟩) := by
  cases hget : assignment.get? memberId with
  | some topics =>
      have hentry := assignment.ownEntries_perm.mem_iff.mpr (InsertionMap.mem_entries_iff.mpr hget)
      have hmember : memberOf (memberId, topics) ∈ assignment.ownEntries.map memberOf :=
        List.mem_map_of_mem hentry
      have hreceived := h.receive hmember hsame
      rw [Option.map_some]
      exact hreceived
  | none =>
      -- the byte behind an empty field is too short for an assignment
      have hother : memberId ∉ (assignment.ownEntries.map memberOf).map Member.memberId := by
        rw [List.map_map]
        intro hmem
        have hkey := (assignment.ownEntries_perm.map Prod.fst).mem_iff.mp hmem
        exact InsertionMap.get?_eq_none_iff.mp hget hkey
      rw [Request.assignmentOf, hsame, h.sent, find?_sent_none hother]
      show SyncGroup.receive (relay throttleTime []) = _
      rw [receive_relay h.throttleTime (by decide)]
      exact MemberAssignment.decode_of_short (by decide)

/-- A member installs what it was dealt, as it comes back. -/
theorem sync_eq {request : Request} {encoder : Encoder} {throttleTime : Int}
    {assignment : InsertionMap Text TopicRecord}
    (h : Sends (assignment.ownEntries.map memberOf) request encoder throttleTime)
    (hsame : request.seen.groupAssignment = request.groupAssignment) {group : ConsumerGroup}
    (hrequest : ∃ request encoder,
      group.request builtins = .ok request ∧ request.encode = .ok encoder)
    (latest : Text → List Int) :
    group.sync builtins (fun _ => answer throttleTime encoder.buffer group.memberId) latest =
      .ok (group.install latest (decodedFor assignment group.memberId)) := by
  obtain ⟨own, sent, hown, hsent⟩ := hrequest
  have hanswer : answer throttleTime encoder.buffer group.memberId =
      .ok (relay throttleTime (request.seen.assignmentOf group.memberId)) := by
    rw [answer, h.parse]
    rfl
  rw [ConsumerGroup.sync, hown, ok_bind, hsent, ok_bind, hanswer, ok_bind,
    receive_assignmentOf h hsame, decodedFor]
  cases assignment.get? group.memberId <;> rfl

/-- Whether the member has subscribed to the topic of the partition. -/
def subscribes (groups : List ConsumerGroup) (entry : Text × TopicPartition) : Bool :=
  groups.any fun group => group.memberId = entry.1 ∧ entry.2.topic ∈ group.topicsSubscribed

/-- A member subscribes to the topics that its group object has. -/
theorem subscribes_iff (hmemberIds : (groups.map ConsumerGroup.memberId).Nodup)
    {group : ConsumerGroup} (hgroup : group ∈ groups) (topicPartition : TopicPartition) :
    subscribes groups (group.memberId, topicPartition) = true ↔
      topicPartition.topic ∈ group.topicsSubscribed := by
  rw [subscribes, List.any_eq_true]
  constructor
  · rintro ⟨other, hother, hsubscribed⟩
    obtain ⟨hid, htopic⟩ := of_decide_eq_true hsubscribed
    rw [← List.inj_on_of_nodup_map hmemberIds hother hgroup hid]
    exact htopic
  · intro htopic
    exact ⟨group, hgroup, decide_eq_true ⟨rfl, htopic⟩⟩

/-- What a member installs, where it is told apart by its id. -/
theorem install_perm (hmemberIds : (groups.map ConsumerGroup.memberId).Nodup)
    {group : ConsumerGroup} (hgroup : group ∈ groups) (latest : Text → List Int)
    (decodedAssignment : TopicRecord) :
    ((group.install latest decodedAssignment).partitions).Perm
      (((flatTopics decodedAssignment).map (Prod.mk group.memberId)).filter
        (subscribes groups)) := by
  refine partitions_perm.trans (List.Perm.of_eq (List.filter_congr fun entry hentry => ?_))
  obtain ⟨topicPartition, -, rfl⟩ := List.mem_map.mp hentry
  rw [Bool.eq_iff_iff, subscribes_iff hmemberIds hgroup, decide_eq_true_eq]

/-- What all members install, of what comes back. -/
theorem flatMap_install_perm {assignment : InsertionMap Text TopicRecord}
    (hmemberIds : (groups.map ConsumerGroup.memberId).Nodup)
    (hkeys : ∀ memberId ∈ assignment.keys, memberId ∈ groups.map ConsumerGroup.memberId)
    (latest : Text → List Int) :
    ((groups.map fun group =>
      group.install latest (decodedFor assignment group.memberId)).flatMap
        Synced.partitions).Perm ((seenAll assignment).filter (subscribes groups)) := by
  have hdecoded : ∀ memberId,
      (flatTopics (decodedFor assignment memberId)).map (Prod.mk memberId) =
        (assignment.get? memberId).toList.flatMap fun topics =>
          (flatTopics (MemberAssignment.received topics)).map (Prod.mk memberId) := by
    intro memberId
    rw [decodedFor]
    cases assignment.get? memberId with
    | none => rfl
    | some topics => exact (List.append_nil _).symm
  have hall := InsertionMap.flatMap_get?_perm
    (fun memberId topics => (flatTopics (MemberAssignment.received topics)).map
      (Prod.mk memberId)) hmemberIds hkeys
  have hseen := (hall.trans (assignment.ownEntries_perm.symm.flatMap_right _)).filter
    (subscribes groups)
  rw [List.flatMap_map, List.filter_flatMap] at hseen
  rw [List.flatMap_map]
  refine List.Perm.trans ?_ hseen
  refine List.Perm.flatMap_left _ fun group hgroup => ?_
  rw [← hdecoded]
  exact install_perm hmemberIds hgroup latest _

variable {request : Request} {encoder : Encoder} {throttleTime : Int}

/-- A group has members. -/
theorem Joined.members_ne_nil (h : Joined leader groups) : leader.members ≠ [] := fun hnil => by
  have hperm := h.members
  rw [hnil] at hperm
  exact List.ne_nil_of_mem (List.mem_map_of_mem h.belongs) (List.nil_perm.mp hperm)

/-- Every member installs what it was dealt, and that is balanced. -/
theorem exchange_eq (hjoined : Joined leader groups) (hnamed : Named leader)
    (hsendable : Sendable builtins leader groups request encoder throttleTime)
    (latest : Text → List Int) :
    ∃ assignment : InsertionMap Text TopicRecord,
      decodeAll request.groupAssignment = .ok (seenAll assignment) ∧
      Balanced leader.findTopicPartitionMetadata leader.members leader.topicsSubscribed
        (seenAll assignment) ∧
      (∀ memberId ∈ assignment.keys, memberId ∈ groups.map ConsumerGroup.memberId) ∧
      exchange builtins throttleTime latest leader groups =
        .ok (groups.map fun group =>
          group.install latest (decodedFor assignment group.memberId)) := by
  obtain ⟨state, hstate, hassign⟩ := assignment_of_request hjoined.leads hsendable.requested
  have hsends := hsendable.sends hassign
  have hdealt := dealt_foldlM dealt_nil hstate
  rw [List.nil_append] at hdealt
  -- the assignment has keys of members only, since each was dealt something
  have hheld : ∀ memberId ∈ state.assignment.keys, memberId ∈ leader.members := by
    intro memberId hkey
    rcases mem_keys_of_foldlM hstate hkey with hbefore | hdeal
    · cases hbefore
    · exact (Text.sort_perm leader.members).mem_iff.mp
        (List.mem_of_mem_take (mem_of_dealt hjoined.members_ne_nil hdeal))
  obtain ⟨-, hflat⟩ := hdealt.exact fun entry hentry =>
    hnamed.assignable.plain _ (mem_of_dealt hjoined.members_ne_nil (List.mem_map_of_mem hentry))
  have hseen := seenAll_perm (kept_of_dealt hnamed.assignable.kept hdealt)
  have hsame := hsends.seen_iff.mpr fun member hmember => by
    obtain ⟨entry, hentry, rfl⟩ := List.mem_map.mp hmember
    refine hnamed.memberIds _ (hheld _ ?_)
    exact List.mem_map_of_mem (state.assignment.ownEntries_perm.mem_iff.mp hentry)
  refine ⟨state.assignment, decodeAll_of_mapM hassign, ?_, fun memberId hkey =>
    hjoined.members.mem_iff.mp (hheld memberId hkey), ?_⟩
  · exact balanced_of_perm hjoined.members_ne_nil
      (hjoined.members.nodup_iff.mpr hjoined.memberIds) hnamed.topics hnamed.partitions
      (hseen.trans hflat)
  · rw [exchange, hsendable.requested, ok_bind, hsendable.encoded, ok_bind]
    exact mapM_ok fun group hgroup => sync_eq hsends hsame (hsendable.others group hgroup) latest

/-- What the leader has sent divides the partitions of its topics among the members, evenly and each
of them once, and a member installs of its own those of the topics that it has subscribed to. -/
theorem installs_of_joined (hjoined : Joined leader groups) (hnamed : Named leader)
    (hsendable : Sendable builtins leader groups request encoder throttleTime)
    (latest : Text → List Int) :
    ∃ assigned synced,
      decodeAll request.groupAssignment = .ok assigned ∧
      Balanced leader.findTopicPartitionMetadata leader.members leader.topicsSubscribed assigned ∧
      exchange builtins throttleTime latest leader groups = .ok synced ∧
      (synced.flatMap Synced.partitions).Perm (assigned.filter (subscribes groups)) := by
  obtain ⟨assignment, hdecoded, hbalanced, hkeys, hexchange⟩ :=
    exchange_eq hjoined hnamed hsendable latest
  exact ⟨_, _, hdecoded, hbalanced, hexchange, flatMap_install_perm hjoined.memberIds hkeys latest⟩

end Group

/-! ## A group of two -/

section Sample

/-- A member of the group. -/
def sampleGroup (memberId : String) (members : List Text) : ConsumerGroup :=
  { groupId := Text.ofString "g"
    generationId := 1
    memberId := Text.ofString memberId
    leaderId := Text.ofString "a"
    members
    topicsSubscribed := [Text.ofString "t"]
    findTopicPartitionMetadata := fun _ => [0, 1, 2] }

/-- The leader, which knows both members. -/
def sampleLeader : ConsumerGroup := sampleGroup "a" [Text.ofString "b", Text.ofString "a"]

def sampleGroups : List ConsumerGroup := [sampleLeader, sampleGroup "b" []]

/-- The sample groups have joined. -/
theorem joined_sample : Joined sampleLeader sampleGroups where
  leads := by decide +kernel
  belongs := List.mem_cons_self
  memberIds := by decide +kernel
  members := List.Perm.swap _ _ _

/-- The names of the sample survive the encoding. -/
theorem named_sample : Named sampleLeader where
  memberIds := by decide +kernel
  assignable := ⟨by decide +kernel, by decide +kernel⟩
  topics := List.nodup_singleton _
  partitions _ _ := by
    show [0, 1, 2].Nodup
    decide

/-- The encoder of a request that can be encoded. -/
theorem encodes_of_isSome {group : ConsumerGroup}
    (h : (group.request plainBuiltins >>= Request.encode).toOption.isSome) :
    ∃ request encoder, group.request plainBuiltins = .ok request ∧
      request.encode = .ok encoder := by
  obtain ⟨encoder, hencoder⟩ := ok_of_isSome h
  obtain ⟨request, hrequest, hencodes⟩ := bind_eq_ok hencoder
  exact ⟨request, encoder, hrequest, hencodes⟩

/-- The request of the sample can be sent. -/
theorem sendable_sample : ∃ request encoder,
    Sendable plainBuiltins sampleLeader sampleGroups request encoder 0 := by
  have hleader := @encodes_of_isSome sampleLeader (by decide +kernel)
  have hother := @encodes_of_isSome (sampleGroup "b" []) (by decide +kernel)
  obtain ⟨request, encoder, hrequest, hencoder⟩ := hleader
  have hsize : ((sampleLeader.request plainBuiltins).map fun request =>
      decide (request.bytes.length < 2 ^ 31)) = .ok true := by decide +kernel
  rw [hrequest] at hsize
  refine ⟨request, encoder, hrequest, hencoder, fun group hgroup => ?_,
    of_decide_eq_true (Except.ok.inj hsize), by decide⟩
  rcases List.mem_cons.mp hgroup with rfl | hgroup
  · exact ⟨request, encoder, hrequest, hencoder⟩
  · rw [List.mem_singleton.mp hgroup]
    exact hother

/-- Two members install three partitions. -/
theorem installs_of_joined_sample : ∃ request encoder,
    Sendable plainBuiltins sampleLeader sampleGroups request encoder 0 ∧
    ∃ assigned synced,
      decodeAll request.groupAssignment = .ok assigned ∧
      Balanced sampleLeader.findTopicPartitionMetadata sampleLeader.members
        sampleLeader.topicsSubscribed assigned ∧
      exchange plainBuiltins 0 (fun _ => []) sampleLeader sampleGroups = .ok synced ∧
      (synced.flatMap Synced.partitions).Perm (assigned.filter (subscribes sampleGroups)) := by
  obtain ⟨request, encoder, hsendable⟩ := sendable_sample
  exact ⟨request, encoder, hsendable,
    installs_of_joined joined_sample named_sample hsendable fun _ => []⟩

end Sample

/-! ## Stale assignments -/

section Stale

variable {group : ConsumerGroup}

/-- A partition is unknown if it is in the metadata and was not known. -/
theorem mem_unknownPartitions {known : InsertionMap Text (List Int)} {entry : Text × List Int}
    {partition : Int} :
    partition ∈ ConsumerGroup.unknownPartitions known entry ↔
      partition ∈ entry.2 ∧ partition ∉ (known.get? entry.1).getD [] := by
  rw [ConsumerGroup.unknownPartitions, List.mem_filter, decide_eq_true_eq]

/-- The topics in the metadata of a group, with their partitions. -/
theorem mem_generatePartitionsPerSubscribedTopic {entry : Text × List Int} :
    entry ∈ group.generatePartitionsPerSubscribedTopic.entries ↔
      entry.1 ∈ group.topicsSubscribed ∧ entry.2 = group.findTopicPartitionMetadata entry.1 := by
  obtain ⟨topic, partitions⟩ := entry
  rw [InsertionMap.mem_entries_iff, get?_generatePartitionsPerSubscribedTopic]
  split
  · next htopic => simp [htopic, eq_comm]
  · next htopic => simp [htopic]

/-- The check passes, or throws for a topic with partitions that were not known. -/
theorem checkForStaleAssignment_cases (group : ConsumerGroup) (synced : Synced) :
    (group.checkForStaleAssignment synced = .ok () ∧
      ∀ entry ∈ group.generatePartitionsPerSubscribedTopic.entries,
        ConsumerGroup.unknownPartitions synced.partitionsPerSubscribedTopic entry = []) ∨
    ∃ entry ∈ group.generatePartitionsPerSubscribedTopic.entries,
      ConsumerGroup.unknownPartitions synced.partitionsPerSubscribedTopic entry ≠ [] ∧
      group.checkForStaleAssignment synced =
        .error ⟨"Topic has been updated", entry.1,
          ConsumerGroup.unknownPartitions synced.partitionsPerSubscribedTopic entry⟩ := by
  rw [ConsumerGroup.checkForStaleAssignment]
  induction group.generatePartitionsPerSubscribedTopic.entries with
  | nil => exact .inl ⟨rfl, List.forall_mem_nil _⟩
  | cons first entries ih =>
      rw [List.forM]
      cases hdiff : ConsumerGroup.unknownPartitions synced.partitionsPerSubscribedTopic first with
      | cons partition partitions =>
          refine .inr ⟨first, List.mem_cons_self, ?_, ?_⟩
          · rw [hdiff]
            exact List.cons_ne_nil _ _
          · rw [hdiff]
            rfl
      | nil =>
          refine ih.imp (fun ⟨hpasses, hall⟩ => ⟨hpasses, ?_⟩) fun ⟨entry, hentry, hthrows⟩ =>
            ⟨entry, List.mem_cons_of_mem _ hentry, hthrows⟩
          exact List.forall_mem_cons.mpr ⟨hdiff, hall⟩

/-- Where a member knows all that it installs, nothing is refreshed. -/
theorem known_of_aware {latest : Text → List Int} {decodedAssignment : TopicRecord}
    (h : ∀ entry ∈ (group.install latest decodedAssignment).partitions,
      entry.2.topic ∈ group.topicsSubscribed ∧
        entry.2.partitionId ∈ group.findTopicPartitionMetadata entry.2.topic) :
    (group.install latest decodedAssignment).partitionsPerSubscribedTopic =
      group.generatePartitionsPerSubscribedTopic := by
  refine if_pos (List.all_eq_true.mpr fun entry hentry => List.all_eq_true.mpr ?_)
  intro partition hpartition
  obtain ⟨htopic, hmem⟩ := h (group.memberId, ⟨entry.1, partition⟩)
    (List.mem_flatMap.mpr ⟨entry, hentry, List.mem_map_of_mem hpartition⟩)
  rw [decide_eq_true_eq, get?_generatePartitionsPerSubscribedTopic, if_pos htopic]
  exact hmem

variable {builtins : Builtins} {leader : ConsumerGroup} {groups : List ConsumerGroup}
  {request : Request} {encoder : Encoder} {throttleTime : Int}

/-- What `checkForStaleAssignment` says about an assignment: every partition in the metadata is
assigned to some member, or some partitions of a topic are to none. -/
def Notices (group : ConsumerGroup) (assigned : List (Text × TopicPartition)) :
    Except StaleTopicMetadataAssignment Unit → Prop
  | .ok _ => ∀ topic ∈ group.topicsSubscribed, ∀ partition ∈ group.findTopicPartitionMetadata topic,
      ⟨topic, partition⟩ ∈ assigned.map Prod.snd
  | .error stale => stale.topic ∈ group.topicsSubscribed ∧ stale.unknownPartitions ≠ [] ∧
      ∀ partition, partition ∈ stale.unknownPartitions ↔
        partition ∈ group.findTopicPartitionMetadata stale.topic ∧
          ⟨stale.topic, partition⟩ ∉ assigned.map Prod.snd

/-- However the metadata changes, the leader notices exactly when there is a partition that was
assigned to no member. -/
theorem leader_notices (hjoined : Joined leader groups) (hnamed : Named leader)
    (hsendable : Sendable builtins leader groups request encoder throttleTime)
    (latest : Text → List Int) :
    ∃ assigned synced,
      Balanced leader.findTopicPartitionMetadata leader.members leader.topicsSubscribed assigned ∧
      exchange builtins throttleTime latest leader groups = .ok synced ∧
      ∃ own ∈ synced, own.memberId = leader.memberId ∧ ∀ findTopicPartitionMetadata,
        Notices (leader.refreshed findTopicPartitionMetadata) assigned
          ((leader.refreshed findTopicPartitionMetadata).checkForStaleAssignment own) := by
  obtain ⟨assignment, -, hbalanced, hkeys, hexchange⟩ :=
    exchange_eq hjoined hnamed hsendable latest
  refine ⟨_, _, hbalanced, hexchange, _, List.mem_map_of_mem hjoined.belongs, rfl, ?_⟩
  -- what the leader knows of a topic is what was assigned of it, to whatever member
  have hknown := @known_of_aware leader latest (decodedFor assignment leader.memberId)
    fun entry hentry => by
      have hassigned := List.mem_of_mem_filter
        ((flatMap_install_perm hjoined.memberIds hkeys latest).mem_iff.mp
          (List.mem_flatMap.mpr ⟨_, List.mem_map.mpr ⟨leader, hjoined.belongs, rfl⟩, hentry⟩))
      exact (hbalanced.covers entry.2).mp (List.mem_map_of_mem hassigned)
  have hcovers : ∀ topic ∈ leader.topicsSubscribed, ∀ partition,
      partition ∈ (leader.generatePartitionsPerSubscribedTopic.get? topic).getD [] ↔
        ⟨topic, partition⟩ ∈ (seenAll assignment).map Prod.snd := by
    intro topic htopic partition
    rw [get?_generatePartitionsPerSubscribedTopic, if_pos htopic, Option.getD_some,
      hbalanced.covers]
    exact (and_iff_right htopic).symm
  intro findTopicPartitionMetadata
  rcases checkForStaleAssignment_cases (leader.refreshed findTopicPartitionMetadata)
    (leader.install latest (decodedFor assignment leader.memberId)) with
    ⟨hpasses, hall⟩ | ⟨entry, hentry, hdiff, hthrows⟩
  · rw [hpasses]
    intro topic htopic partition hpartition
    have hnone := hall (topic, findTopicPartitionMetadata topic)
      (mem_generatePartitionsPerSubscribedTopic.mpr ⟨htopic, rfl⟩)
    rw [hknown, List.eq_nil_iff_forall_not_mem] at hnone
    have hnot := hnone partition
    rw [mem_unknownPartitions, not_and_not_right] at hnot
    exact (hcovers topic htopic partition).mp (hnot hpartition)
  · rw [hthrows]
    obtain ⟨htopic, hpartitions⟩ := mem_generatePartitionsPerSubscribedTopic.mp hentry
    refine ⟨htopic, hdiff, fun partition => ?_⟩
    rw [hknown, mem_unknownPartitions, hpartitions, hcovers _ htopic]

/-- The leader of the sample notices partitions that are new. -/
theorem leader_notices_sample : ∃ request encoder,
    Sendable plainBuiltins sampleLeader sampleGroups request encoder 0 ∧
    ∃ assigned synced,
      Balanced sampleLeader.findTopicPartitionMetadata sampleLeader.members
        sampleLeader.topicsSubscribed assigned ∧
      exchange plainBuiltins 0 (fun _ => []) sampleLeader sampleGroups = .ok synced ∧
      ∃ own ∈ synced, own.memberId = sampleLeader.memberId ∧ ∀ findTopicPartitionMetadata,
        Notices (sampleLeader.refreshed findTopicPartitionMetadata) assigned
          ((sampleLeader.refreshed findTopicPartitionMetadata).checkForStaleAssignment own) := by
  obtain ⟨request, encoder, hsendable⟩ := sendable_sample
  exact ⟨request, encoder, hsendable,
    leader_notices joined_sample named_sample hsendable fun _ => []⟩

end Stale

end KafkaJs.Consumer.GroupExchange
