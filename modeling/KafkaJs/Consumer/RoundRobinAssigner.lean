import KafkaJs.Consumer.SyncGroup
import KafkaJs.Data.Dealing
import KafkaJs.Protocol.RecordBatch

/-!
# The round robin assigner

`consumer/assigners/roundRobinAssigner`: the partitions of all topics are dealt to the members in
the order of their ids, and each member's are encoded. The assignments are collected in a record
literal: a member with a name that every object has finds something there already, and its
partitions go into that object instead, `Builtins`. `balanced_iff` says when the decoded
assignments are a balanced partition of the partitions.
-/

namespace KafkaJs.Consumer.RoundRobinAssigner

open Data Protocol AssignerProtocol SyncGroup

/-! ## The assigner -/

/-- A partition of a topic. -/
structure TopicPartition where
  topic : Text
  partitionId : Int
  deriving DecidableEq

/-- What happens when values are stored in the objects that a record literal inherits: which names
a record has found afterwards, and whether a further value can be stored. -/
structure Builtins where
  inherits : List (Text × TopicPartition) → Text → Bool
  throws : List (Text × TopicPartition) → Text → TopicPartition → Bool
  initially : ∀ name, inherits [] name = true → IsInherited name
  always : ∀ stores name, IsInherited name → inherits stores name = true

/-- The record of assignments, and what was stored elsewhere. -/
structure State where
  assignment : InsertionMap Text TopicRecord := .empty
  stores : List (Text × TopicPartition) := []

/-- `topics[topic].push(partitionId)`, in a record without a prototype. -/
def push (topics : TopicRecord) (topicPartition : TopicPartition) : TopicRecord :=
  topics.set topicPartition.topic
    ((topics.get? topicPartition.topic).getD [] ++ [topicPartition.partitionId])

/-- The body of the loop. -/
def assignPartition (builtins : Builtins) (state : State) (entry : Text × TopicPartition) :
    Except KafkaError State :=
  let (assignee, topicPartition) := entry
  match state.assignment.get? assignee with
  | some topics =>
      .ok { state with assignment := state.assignment.set assignee (push topics topicPartition) }
  | none =>
      if builtins.inherits state.stores assignee then
        if builtins.throws state.stores assignee topicPartition then
          .error { name := .typeError, message := "push is not a function", retriable := none }
        else .ok { state with stores := state.stores ++ [entry] }
      else
        .ok { state with
          assignment := state.assignment.set assignee (push .empty topicPartition) }

/-- `sortedMembers[i % membersCount]`, as a property name. -/
def assigneeAt (sortedMembers : List Text) (i : Nat) : Text :=
  (sortedMembers[i % sortedMembers.length]?).getD (Text.ofString "undefined")

/-- `topicsPartitions`. -/
def topicsPartitions (findTopicPartitionMetadata : Text → List Int) (topics : List Text) :
    List TopicPartition :=
  topics.flatMap fun topic => (findTopicPartitionMetadata topic).map (TopicPartition.mk topic)

/-- The encoded assignment of a member. -/
def encodeMember (entry : Text × TopicRecord) : Except KafkaError GroupAssignment := do
  let memberAssignment ← MemberAssignment.encode 0 entry.2 []
  pure { memberId := entry.1, memberAssignment }

/-- `assign`, given the ids of the members and the ids of the partitions of a topic. -/
def assign (builtins : Builtins) (findTopicPartitionMetadata : Text → List Int)
    (members topics : List Text) : Except KafkaError (List GroupAssignment) := do
  let sortedMembers := Text.sort members
  let state ← (deal (assigneeAt sortedMembers)
    (topicsPartitions findTopicPartitionMetadata topics)).foldlM (assignPartition builtins) {}
  state.assignment.ownEntries.mapM encodeMember

/-! ## Balanced assignments -/

/-- The partitions in an assignment. -/
def flatTopics (assignment : TopicRecord) : List TopicPartition :=
  assignment.entries.flatMap fun entry => entry.2.map (TopicPartition.mk entry.1)

/-- What the decoded assignment of a member gives it. -/
def decodeMember (entry : GroupAssignment) : Except KafkaError (List (Text × TopicPartition)) := do
  match ← MemberAssignment.decode entry.memberAssignment with
  | some decoded => pure ((flatTopics decoded.assignment).map (Prod.mk entry.memberId))
  | none => pure []

/-- What the decoded assignments give to the members. -/
def decodeAll (result : List GroupAssignment) :
    Except KafkaError (List (Text × TopicPartition)) := do
  let lists ← result.mapM decodeMember
  pure lists.flatten

/-- The number of partitions of a member. -/
def load (assigned : List (Text × TopicPartition)) (memberId : Text) : Nat :=
  (assigned.filter fun entry => entry.1 = memberId).length

/-- Every partition of every topic is assigned to one of the members, once, and nothing else is; no
member has two partitions more than another one. -/
structure Balanced (findTopicPartitionMetadata : Text → List Int) (members topics : List Text)
    (assigned : List (Text × TopicPartition)) : Prop where
  once : (assigned.map Prod.snd).Nodup
  covers : ∀ topicPartition, topicPartition ∈ assigned.map Prod.snd ↔
    topicPartition.topic ∈ topics ∧
      topicPartition.partitionId ∈ findTopicPartitionMetadata topicPartition.topic
  assignees : ∀ entry ∈ assigned, entry.1 ∈ members
  balanced : ∀ first ∈ members, ∀ second ∈ members, load assigned first ≤ load assigned second + 1

/-! ## The loop -/

/-- The partitions in a record of assignments. -/
def flat (assignment : InsertionMap Text TopicRecord) : List (Text × TopicPartition) :=
  assignment.entries.flatMap fun entry => (flatTopics entry.2).map (Prod.mk entry.1)

/-- A partition that is pushed is added. -/
theorem flatTopics_push (topics : TopicRecord) (topicPartition : TopicPartition) :
    (flatTopics (push topics topicPartition)).Perm (flatTopics topics ++ [topicPartition]) := by
  refine InsertionMap.flatMap_set_perm ?_
  cases topics.get? topicPartition.topic <;> simp

/-- A partition that is pushed for a member is added to the assignment. -/
theorem flat_set_push (assignment : InsertionMap Text TopicRecord) (entry : Text × TopicPartition) :
    (flat (assignment.set entry.1 (push ((assignment.get? entry.1).getD .empty) entry.2))).Perm
      (flat assignment ++ [entry]) := by
  refine InsertionMap.flatMap_set_perm ?_
  cases assignment.get? entry.1 with
  | none => exact (flatTopics_push .empty entry.2).map _
  | some topics =>
      have hpush := (flatTopics_push topics entry.2).map (Prod.mk entry.1)
      simpa using hpush

/-- Every topic of an assignment has partitions, and all of them have a property. -/
def Within (P : TopicPartition → Prop) (topics : TopicRecord) : Prop :=
  ∀ topic partitions, topics.get? topic = some partitions →
    partitions ≠ [] ∧ ∀ partitionId ∈ partitions, P ⟨topic, partitionId⟩

/-- Nothing is within an empty record. -/
theorem within_empty (P : TopicPartition → Prop) : Within P .empty :=
  fun _ _ hget => by cases hget

/-- A weaker property holds of the same partitions. -/
theorem Within.imp {P Q : TopicPartition → Prop} {topics : TopicRecord} (h : Within P topics)
    (himp : ∀ topicPartition, P topicPartition → Q topicPartition) : Within Q topics :=
  fun topic partitions hget =>
    ⟨(h topic partitions hget).1, fun partitionId hmem =>
      himp _ ((h topic partitions hget).2 partitionId hmem)⟩

/-- Pushing a partition that has the property. -/
theorem Within.push {P : TopicPartition → Prop} {topics : TopicRecord} (h : Within P topics)
    {topicPartition : TopicPartition} (hlast : P topicPartition) :
    Within P (push topics topicPartition) := by
  intro topic partitions hget
  rw [RoundRobinAssigner.push, InsertionMap.get?_set] at hget
  split at hget
  · next hsame =>
      subst hsame
      cases hget
      refine ⟨List.append_ne_nil_of_right_ne_nil _ (List.cons_ne_nil _ _), ?_⟩
      intro partitionId hmem
      rcases List.mem_append.mp hmem with hbefore | hnew
      · cases hlist : topics.get? topicPartition.topic with
        | none =>
            rw [hlist] at hbefore
            cases hbefore
        | some partitions =>
            rw [hlist] at hbefore
            exact (h _ partitions hlist).2 partitionId hbefore
      · rw [List.mem_singleton] at hnew
        rw [hnew]
        exact hlast
  · exact h topic partitions hget

/-- The state after the partitions in `deals`. If no member has an inherited name, it is exactly
they that are assigned. -/
structure Dealt (deals : List (Text × TopicPartition)) (state : State) : Prop where
  members : ∀ memberId topics, state.assignment.get? memberId = some topics →
    ¬ IsInherited memberId
  topics : ∀ memberId topics, state.assignment.get? memberId = some topics →
    Within (fun topicPartition => (memberId, topicPartition) ∈ deals) topics
  exact : (∀ entry ∈ deals, ¬ IsInherited entry.1) →
    state.stores = [] ∧ (flat state.assignment).Perm deals

section Loop

variable {builtins : Builtins} {deals : List (Text × TopicPartition)} {state next : State}
  {entry : Text × TopicPartition}

/-- At first nothing is dealt. -/
theorem dealt_nil : Dealt [] {} where
  members _ _ hget := by cases hget
  topics _ _ hget := by cases hget
  exact _ := ⟨rfl, List.Perm.refl _⟩

/-- A partition stored in the record of assignments. -/
theorem Dealt.store (h : Dealt deals state) (hname : ¬ IsInherited entry.1) :
    Dealt (deals ++ [entry])
      { state with
        assignment := state.assignment.set entry.1
          (push ((state.assignment.get? entry.1).getD .empty) entry.2) } where
  members memberId topics hget := by
    rw [InsertionMap.get?_set] at hget
    split at hget
    · next hsame =>
        rw [hsame]
        exact hname
    · exact h.members memberId topics hget
  topics memberId topics hget := by
    have hmore : ∀ topicPartition, (memberId, topicPartition) ∈ deals →
        (memberId, topicPartition) ∈ deals ++ [entry] := fun _ => List.mem_append_left _
    rw [InsertionMap.get?_set] at hget
    split at hget
    · next hsame =>
        subst hsame
        cases hget
        refine Within.push ?_ (List.mem_append_right _ (List.mem_singleton_self _))
        cases hassigned : state.assignment.get? entry.1 with
        | none => exact within_empty _
        | some topics => exact (h.topics entry.1 topics hassigned).imp hmore
    · exact (h.topics memberId topics hget).imp hmore
  exact hnames := by
    obtain ⟨hstores, hflat⟩ := h.exact fun other hother =>
      hnames other (List.mem_append_left _ hother)
    exact ⟨hstores, (flat_set_push state.assignment entry).trans (hflat.append_right _)⟩

/-- A partition stored in an inherited object. -/
theorem Dealt.lose (h : Dealt deals state)
    (hinherits : builtins.inherits state.stores entry.1 = true) :
    Dealt (deals ++ [entry]) { state with stores := state.stores ++ [entry] } where
  members := h.members
  topics memberId topics hget :=
    (h.topics memberId topics hget).imp fun _ => List.mem_append_left _
  exact hnames := by
    -- without stores, it is one of the names that every object has
    have hstores := (h.exact fun other hother => hnames other (List.mem_append_left _ hother)).1
    rw [hstores] at hinherits
    exact absurd (builtins.initially _ hinherits)
      (hnames entry (List.mem_append_right _ (List.mem_singleton_self _)))

/-- One step of the loop. -/
theorem Dealt.assignPartition (h : Dealt deals state)
    (hstep : assignPartition builtins state entry = .ok next) : Dealt (deals ++ [entry]) next := by
  unfold RoundRobinAssigner.assignPartition at hstep
  dsimp only at hstep
  split at hstep
  · next topics hassigned =>
      cases hstep
      have hstored := h.store (h.members entry.1 topics hassigned)
      rw [hassigned, Option.getD_some] at hstored
      exact hstored
  · next hassigned =>
      split at hstep
      · next hinherits =>
          split at hstep
          · cases hstep
          · cases hstep
            exact h.lose hinherits
      · next hinherits =>
          cases hstep
          have hstored := h.store fun hname =>
            hinherits (builtins.always state.stores entry.1 hname)
          rw [hassigned, Option.getD_none] at hstored
          exact hstored

/-- The whole loop. -/
theorem dealt_foldlM {done rest : List (Text × TopicPartition)} (h : Dealt done state)
    (hrun : rest.foldlM (RoundRobinAssigner.assignPartition builtins) state = .ok next) :
    Dealt (done ++ rest) next := by
  induction rest generalizing done state with
  | nil =>
      cases hrun
      rw [List.append_nil]
      exact h
  | cons entry rest ih =>
      rw [List.foldlM_cons] at hrun
      obtain ⟨middle, hstep, hrest⟩ := bind_eq_ok hrun
      have hlater := ih (h.assignPartition hstep) hrest
      rw [List.append_assoc, List.singleton_append] at hlater
      exact hlater

end Loop

/-! ## The decoded assignments -/

section Decoded

variable {assignment : InsertionMap Text TopicRecord} {result : List GroupAssignment}

/-- What the decoded assignments of a record give. -/
def seenAll (assignment : InsertionMap Text TopicRecord) : List (Text × TopicPartition) :=
  assignment.ownEntries.flatMap fun entry =>
    (flatTopics (MemberAssignment.received entry.2)).map (Prod.mk entry.1)

/-- An encoded member is decoded to the partitions that it receives. -/
theorem decodeMember_of_encodeMember {entry : Text × TopicRecord} {encoded : GroupAssignment}
    (h : encodeMember entry = .ok encoded) :
    decodeMember encoded =
      .ok ((flatTopics (MemberAssignment.received entry.2)).map (Prod.mk entry.1)) := by
  obtain ⟨bytes, hbytes, hencoded⟩ := bind_eq_ok h
  cases hencoded
  have hdecode := MemberAssignment.decode_encoding (MemberAssignment.encode_eq_ok hbytes).1
    (show ([] : Bytes).length < 2 ^ 31 by decide) []
  rw [List.append_nil, ← MemberAssignment.encode_nil_eq hbytes] at hdecode
  rw [decodeMember, hdecode]
  rfl

/-- An encoded assignment is decoded to the partitions that the members receive. -/
theorem decodeAll_of_mapM {entries : List (Text × TopicRecord)}
    (h : entries.mapM encodeMember = .ok result) :
    decodeAll result = .ok (entries.flatMap fun entry =>
      (flatTopics (MemberAssignment.received entry.2)).map (Prod.mk entry.1)) := by
  have hlists : result.mapM decodeMember = .ok (entries.map fun entry =>
      (flatTopics (MemberAssignment.received entry.2)).map (Prod.mk entry.1)) := by
    have hall := forall₂_of_mapM_ok h
    clear h
    induction hall with
    | nil => rfl
    | cons hfirst _ ih =>
        rw [List.mapM_cons, decodeMember_of_encodeMember hfirst, ih]
        rfl
  rw [decodeAll, hlists, List.flatMap_def]
  rfl

/-- Assignments of topics that come back are decoded as they are. -/
theorem seenAll_perm (h : ∀ memberId topics, assignment.get? memberId = some topics →
    ∀ topic ∈ topics.keys, MemberAssignment.Kept topic) :
    (seenAll assignment).Perm (flat assignment) := by
  refine List.Perm.trans ?_ (assignment.ownEntries_perm.flatMap_right _)
  refine List.Perm.flatMap_left _ fun entry hentry => List.Perm.map _ ?_
  have hget := InsertionMap.mem_entries_iff.mp (assignment.ownEntries_perm.mem_iff.mp hentry)
  rw [flatTopics, MemberAssignment.entries_received (h entry.1 entry.2 hget)]
  exact (entry.2.ownEntries_perm).flatMap_right _

/-- The partitions in a record of topics. -/
theorem mem_flatTopics {topics : TopicRecord} {topicPartition : TopicPartition} :
    topicPartition ∈ flatTopics topics ↔ ∃ partitions,
      topics.get? topicPartition.topic = some partitions ∧
        topicPartition.partitionId ∈ partitions := by
  obtain ⟨topic, partitionId⟩ := topicPartition
  simp only [flatTopics, List.mem_flatMap, List.mem_map, Prod.exists, TopicPartition.mk.injEq,
    InsertionMap.mem_entries_iff]
  constructor
  · rintro ⟨name, partitions, hget, _, hmem, rfl, rfl⟩
    exact ⟨partitions, hget, hmem⟩
  · rintro ⟨partitions, hget, hmem⟩
    exact ⟨topic, partitions, hget, partitionId, hmem, rfl, rfl⟩

/-- A partition that is assigned after decoding has a topic that comes back. -/
theorem kept_of_mem_seenAll {entry : Text × TopicPartition} (h : entry ∈ seenAll assignment) :
    MemberAssignment.Kept entry.2.topic := by
  obtain ⟨⟨memberId, topics⟩, -, hmem⟩ := List.mem_flatMap.mp h
  obtain ⟨topicPartition, htopic, rfl⟩ := List.mem_map.mp hmem
  obtain ⟨partitions, hget, -⟩ := mem_flatTopics.mp htopic
  exact MemberAssignment.kept_of_mem_received (InsertionMap.mem_keys_iff.mpr ⟨partitions, hget⟩)

/-- The partitions of a member in an assignment. -/
theorem mem_flat {entry : Text × TopicPartition} :
    entry ∈ flat assignment ↔ ∃ topics, assignment.get? entry.1 = some topics ∧
      entry.2 ∈ flatTopics topics := by
  obtain ⟨memberId, topicPartition⟩ := entry
  simp only [flat, List.mem_flatMap, List.mem_map, Prod.exists, Prod.mk.injEq,
    InsertionMap.mem_entries_iff]
  constructor
  · rintro ⟨name, topics, hget, _, hmem, rfl, rfl⟩
    exact ⟨topics, hget, hmem⟩
  · rintro ⟨topics, hget, hmem⟩
    exact ⟨memberId, topics, hget, topicPartition, hmem, rfl, rfl⟩

end Decoded

/-! ## Balance -/

section Balance

variable {builtins : Builtins} {findTopicPartitionMetadata : Text → List Int}
  {members topics : List Text} {result : List GroupAssignment}

/-- The partitions of the topics in the metadata. -/
theorem mem_topicsPartitions {topicPartition : TopicPartition} :
    topicPartition ∈ topicsPartitions findTopicPartitionMetadata topics ↔
      topicPartition.topic ∈ topics ∧
        topicPartition.partitionId ∈ findTopicPartitionMetadata topicPartition.topic := by
  obtain ⟨topic, partitionId⟩ := topicPartition
  simp only [topicsPartitions, List.mem_flatMap, List.mem_map, TopicPartition.mk.injEq]
  constructor
  · rintro ⟨name, hname, _, hmem, rfl, rfl⟩
    exact ⟨hname, hmem⟩
  · rintro ⟨htopic, hmem⟩
    exact ⟨topic, htopic, partitionId, hmem, rfl, rfl⟩

/-- The partitions of the topics are listed once. -/
theorem topicsPartitions_nodup (htopics : topics.Nodup)
    (hpartitions : ∀ topic ∈ topics, (findTopicPartitionMetadata topic).Nodup) :
    (topicsPartitions findTopicPartitionMetadata topics).Nodup := by
  refine List.nodup_flatMap.mpr ⟨fun topic htopic => ?_, htopics.imp fun hne => ?_⟩
  · exact (hpartitions topic htopic).map fun _ _ hsame => (TopicPartition.mk.inj hsame).2
  · intro topicPartition hfirst hsecond
    obtain ⟨_, -, rfl⟩ := List.mem_map.mp hfirst
    obtain ⟨_, -, hsame⟩ := List.mem_map.mp hsecond
    exact hne (TopicPartition.mk.inj hsame).1.symm

/-- The members take turns. -/
theorem assigneeAt_eq {sortedMembers : List Text} (h : sortedMembers ≠ []) (i : Nat) :
    some (assigneeAt sortedMembers i) = sortedMembers[i % sortedMembers.length]? := by
  have hlt := Nat.mod_lt i (List.length_pos_iff.mpr h)
  rw [assigneeAt, List.getElem?_eq_getElem hlt, Option.getD_some]

/-- The members that are assigned something. -/
theorem assigneeAt_mem_take {sortedMembers : List Text} (h : sortedMembers ≠ []) {turn count : Nat}
    (hturn : turn < count) : assigneeAt sortedMembers turn ∈ sortedMembers.take count := by
  have hplayer := assigneeAt_eq h turn
  have hmod := Nat.mod_le turn sortedMembers.length
  refine List.mem_of_getElem? (i := turn % sortedMembers.length) ?_
  rw [List.getElem?_take, if_pos (by omega)]
  exact hplayer.symm

/-- The condition on topics and members: topics with partitions have names that come back, and no
member that is assigned a partition has a name that every object has. -/
structure Assignable (findTopicPartitionMetadata : Text → List Int) (members topics : List Text) :
    Prop where
  kept : ∀ topic ∈ topics, findTopicPartitionMetadata topic ≠ [] → MemberAssignment.Kept topic
  plain : ∀ memberId ∈
    (Text.sort members).take (topicsPartitions findTopicPartitionMetadata topics).length,
    ¬ IsInherited memberId

/-- What an assignment that is returned was made of. -/
theorem dealt_of_assign
    (h : assign builtins findTopicPartitionMetadata members topics = .ok result) :
    ∃ state, Dealt (deal (assigneeAt (Text.sort members))
        (topicsPartitions findTopicPartitionMetadata topics)) state ∧
      decodeAll result = .ok (seenAll state.assignment) := by
  obtain ⟨state, hstate, hresult⟩ := bind_eq_ok h
  have hdealt := dealt_foldlM dealt_nil hstate
  rw [List.nil_append] at hdealt
  exact ⟨state, hdealt, decodeAll_of_mapM hresult⟩

/-- Topics whose partitions were dealt have names that come back. -/
theorem kept_of_dealt
    (hkept : ∀ topic ∈ topics, findTopicPartitionMetadata topic ≠ [] →
      MemberAssignment.Kept topic) {playerAt : Nat → Text} {state : State}
    (h : Dealt (deal playerAt (topicsPartitions findTopicPartitionMetadata topics)) state)
    (memberId : Text) (assigned : TopicRecord)
    (hget : state.assignment.get? memberId = some assigned) :
    ∀ topic ∈ assigned.keys, MemberAssignment.Kept topic := by
  intro topic htopic
  obtain ⟨partitions, hpartitions⟩ := InsertionMap.mem_keys_iff.mp htopic
  obtain ⟨hne, hall⟩ := h.topics memberId assigned hget topic partitions hpartitions
  obtain ⟨partitionId, hmem⟩ := List.exists_mem_of_ne_nil partitions hne
  have hsecond := List.mem_map_of_mem (f := Prod.snd) (hall partitionId hmem)
  rw [map_snd_deal, mem_topicsPartitions] at hsecond
  exact hkept topic hsecond.1 (List.ne_nil_of_mem hsecond.2)

/-- The partitions that were dealt are balanced. -/
theorem balanced_of_perm (hmembers : members ≠ []) (hids : members.Nodup)
    (htopics : topics.Nodup)
    (hpartitions : ∀ topic ∈ topics, (findTopicPartitionMetadata topic).Nodup)
    {assigned : List (Text × TopicPartition)}
    (h : assigned.Perm (deal (assigneeAt (Text.sort members))
      (topicsPartitions findTopicPartitionMetadata topics))) :
    Balanced findTopicPartitionMetadata members topics assigned := by
  have hperm := Text.sort_perm members
  have hsorted : Text.sort members ≠ [] := fun hnil => hmembers (List.nil_perm.mp (hnil ▸ hperm))
  have hsecond := h.map Prod.snd
  rw [map_snd_deal] at hsecond
  constructor
  · exact hsecond.nodup_iff.mpr (topicsPartitions_nodup htopics hpartitions)
  · intro topicPartition
    rw [hsecond.mem_iff, mem_topicsPartitions]
  · intro entry hentry
    obtain ⟨turn, hturn, hplayer, -⟩ := mem_deal (h.mem_iff.mp hentry)
    rw [hplayer]
    exact hperm.mem_iff.mp (List.mem_of_mem_take (assigneeAt_mem_take hsorted hturn))
  · intro first hfirst second hother
    have hload : ∀ memberId, load assigned memberId =
        ((deal (assigneeAt (Text.sort members))
          (topicsPartitions findTopicPartitionMetadata topics)).filter
            fun entry => entry.1 = memberId).length := fun memberId => (h.filter _).length_eq
    rw [hload, hload]
    exact length_dealt_le (hperm.nodup_iff.mpr hids) (assigneeAt_eq hsorted) _
      (hperm.mem_iff.mpr hfirst) (hperm.mem_iff.mpr hother)

/-- What can be assigned is assigned evenly. -/
theorem Assignable.balanced (h : Assignable findTopicPartitionMetadata members topics)
    (hmembers : members ≠ []) (hids : members.Nodup) (htopics : topics.Nodup)
    (hpartitions : ∀ topic ∈ topics, (findTopicPartitionMetadata topic).Nodup)
    (hresult : assign builtins findTopicPartitionMetadata members topics = .ok result) :
    ∃ assigned, decodeAll result = .ok assigned ∧
      Balanced findTopicPartitionMetadata members topics assigned := by
  obtain ⟨state, hdealt, hdecode⟩ := dealt_of_assign hresult
  have hsorted : Text.sort members ≠ [] := fun hnil =>
    hmembers (List.nil_perm.mp (hnil ▸ Text.sort_perm members))
  obtain ⟨-, hflat⟩ := hdealt.exact fun entry hentry => by
    obtain ⟨turn, hturn, hplayer, -⟩ := mem_deal hentry
    rw [hplayer]
    exact h.plain _ (assigneeAt_mem_take hsorted hturn)
  have hseen := seenAll_perm (kept_of_dealt h.kept hdealt)
  exact ⟨_, hdecode,
    balanced_of_perm hmembers hids htopics hpartitions (hseen.trans hflat)⟩

/-- What is assigned evenly could be assigned. -/
theorem Balanced.assignable {assigned : List (Text × TopicPartition)}
    (h : Balanced findTopicPartitionMetadata members topics assigned) (htopics : topics.Nodup)
    (hpartitions : ∀ topic ∈ topics, (findTopicPartitionMetadata topic).Nodup)
    (hresult : assign builtins findTopicPartitionMetadata members topics = .ok result)
    (hassigned : decodeAll result = .ok assigned) :
    Assignable findTopicPartitionMetadata members topics := by
  obtain ⟨state, hdealt, hdecode⟩ := dealt_of_assign hresult
  cases hdecode.symm.trans hassigned
  have hkept : ∀ topic ∈ topics, findTopicPartitionMetadata topic ≠ [] →
      MemberAssignment.Kept topic := by
    intro topic htopic hne
    obtain ⟨partitionId, hmem⟩ := List.exists_mem_of_ne_nil _ hne
    obtain ⟨entry, hentry, hsame⟩ :=
      List.mem_map.mp ((h.covers ⟨topic, partitionId⟩).mpr ⟨htopic, hmem⟩)
    have hname := kept_of_mem_seenAll hentry
    rw [hsame] at hname
    exact hname
  refine ⟨hkept, fun memberId hmember hinherited => ?_⟩
  -- the first partition of such a member would be with another one
  obtain ⟨turn, hturn⟩ := List.mem_iff_getElem?.mp hmember
  rw [List.getElem?_take] at hturn
  split at hturn
  · next hlt =>
      have hseat := (List.getElem?_eq_some_iff.mp hturn).1
      have hsorted : Text.sort members ≠ [] := List.ne_nil_of_length_pos (Nat.zero_lt_of_lt hseat)
      have hplayer := assigneeAt_eq hsorted turn
      rw [Nat.mod_eq_of_lt hseat, hturn] at hplayer
      have hitem := List.getElem?_eq_getElem hlt
      have hdeal := @deal_of_getElem? _ _ (assigneeAt (Text.sort members)) _ _ _ hitem
      rw [Option.some.inj hplayer] at hdeal
      obtain ⟨⟨holder, topicPartition⟩, hentry, hsame⟩ := List.mem_map.mp
        ((h.covers _).mpr (mem_topicsPartitions.mp (List.mem_of_getElem? hitem)))
      dsimp only at hsame
      rw [(seenAll_perm (kept_of_dealt hkept hdealt)).mem_iff, mem_flat] at hentry
      obtain ⟨assigned, hget, htopic⟩ := hentry
      obtain ⟨partitions, hpartition, hmem⟩ := mem_flatTopics.mp htopic
      have hheld := (hdealt.topics holder assigned hget _ partitions hpartition).2 _ hmem
      have hnodup := topicsPartitions_nodup htopics hpartitions
      rw [← map_snd_deal (assigneeAt (Text.sort members))
        (topicsPartitions findTopicPartitionMetadata topics)] at hnodup
      have hone := List.inj_on_of_nodup_map hnodup hheld hdeal hsame
      refine hdealt.members holder assigned hget ?_
      rw [(Prod.mk.inj hone).1]
      exact hinherited
  · cases hturn

/-- The assignment is a balanced partition, whatever the order of the members, exactly if the names
allow it. -/
theorem balanced_iff (hmembers : members ≠ []) (hids : members.Nodup) (htopics : topics.Nodup)
    (hpartitions : ∀ topic ∈ topics, (findTopicPartitionMetadata topic).Nodup)
    (hresult : assign builtins findTopicPartitionMetadata members topics = .ok result) :
    ((∃ assigned, decodeAll result = .ok assigned ∧
        Balanced findTopicPartitionMetadata members topics assigned) ∧
      ∀ other : List Text, other.Perm members →
        assign builtins findTopicPartitionMetadata other topics = .ok result) ↔
      Assignable findTopicPartitionMetadata members topics := by
  constructor
  · rintro ⟨⟨assigned, hassigned, hbalanced⟩, -⟩
    exact hbalanced.assignable htopics hpartitions hresult hassigned
  · intro h
    refine ⟨h.balanced hmembers hids htopics hpartitions hresult, fun other hperm => ?_⟩
    rw [← hresult, assign, assign, Text.sort_eq_of_perm hperm]

end Balance

/-! ## A topic and two members -/

/-- Objects in which everything can be stored, without an effect on the names that are found. -/
def plainBuiltins : Builtins where
  inherits _ name := decide (IsInherited name)
  throws _ _ _ := false
  initially _ h := of_decide_eq_true h
  always _ _ h := decide_eq_true h

/-- The assignment of the three partitions of a topic to two members. -/
def sampleAssign (topic : String) : Except KafkaError (List GroupAssignment) :=
  assign plainBuiltins (fun _ => [0, 1, 2]) [Text.ofString "m2", Text.ofString "m1"]
    [Text.ofString topic]

/-- Three partitions of a plain topic are assigned evenly to two members. -/
theorem balanced_iff_sample : ∃ result, sampleAssign "t" = .ok result ∧
    (((∃ assigned, decodeAll result = .ok assigned ∧
        Balanced (fun _ => [0, 1, 2]) [Text.ofString "m2", Text.ofString "m1"]
          [Text.ofString "t"] assigned) ∧
      ∀ other : List Text, other.Perm [Text.ofString "m2", Text.ofString "m1"] →
        assign plainBuiltins (fun _ => [0, 1, 2]) other [Text.ofString "t"] = .ok result) ↔
      Assignable (fun _ => [0, 1, 2]) [Text.ofString "m2", Text.ofString "m1"]
        [Text.ofString "t"]) := by
  obtain ⟨result, hresult⟩ := ok_of_isSome
    (show (sampleAssign "t").toOption.isSome by decide +kernel)
  exact ⟨result, hresult, balanced_iff (by decide) (by decide +kernel) (List.nodup_singleton _)
    (fun _ _ => by decide) hresult⟩

/-- The partitions of a topic named `__proto__` are encoded, but decoded for no member. -/
theorem not_balanced_proto : ∃ result, sampleAssign "__proto__" = .ok result ∧
    ¬ ∃ assigned, decodeAll result = .ok assigned ∧
      Balanced (fun _ => [0, 1, 2]) [Text.ofString "m2", Text.ofString "m1"]
        [Text.ofString "__proto__"] assigned := by
  obtain ⟨result, hresult⟩ := ok_of_isSome
    (show (sampleAssign "__proto__").toOption.isSome by decide +kernel)
  refine ⟨result, hresult, ?_⟩
  rintro ⟨assigned, hassigned, hbalanced⟩
  have hassignable := hbalanced.assignable (List.nodup_singleton _) (fun _ _ => by decide)
    hresult hassigned
  have hkept := hassignable.kept _ (List.mem_singleton_self _) (by decide)
  exact hkept.2 rfl

end KafkaJs.Consumer.RoundRobinAssigner
