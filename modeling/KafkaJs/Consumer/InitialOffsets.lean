import KafkaJs.Consumer.OffsetManager

/-!
# Initial offsets

Where a consumer starts. `resolveOffsets` regroups its partitions several times: by topic, by
whether the group has committed an offset, by leader, and back by topic. `Initialized` says what a
partition is to get, and `resolveOffsets_initialized` that it gets it whenever `resolveOffsets`
succeeds, on what a coordinator and the brokers promise about their answers.
-/

namespace KafkaJs.Consumer

open Data Cluster

namespace OffsetManager

/-- The answer to an OffsetFetch request: the partitions of the request and no others, a topic once
and a partition with one offset, which is negative where the group has committed none. -/
structure AnswersFetch (request : List (String × List Int)) (answer : TopicPartitions) : Prop where
  topics : (answer.map Prod.fst).Nodup
  covers : ∀ topic partition, (∃ offset, ListsAt answer topic partition offset) ↔
    ∃ partitions, (topic, partitions) ∈ request ∧ partition ∈ partitions
  agrees : ∀ topic partition first second, ListsAt answer topic partition first →
    ListsAt answer topic partition second → first = second

/-- The answer to a ListOffsets request for the earliest or latest offsets: an offset for the
partitions of the request and no others. -/
structure AnswersList (query answer : TopicPartitions) : Prop where
  covers : ∀ topic partition, (∃ offset, ListsAt answer topic partition offset) ↔
    ∃ timestamp, ListsAt query topic partition timestamp
  valid : ∀ topic partition offset, ListsAt answer topic partition offset → 0 ≤ offset

/-- The leader has listed the offset of a partition when it was asked for the one timestamp. -/
def Listed (view : ClusterView) (listOffsets : ListOffsets) (topic : String)
    (partition timestamp offset : Int) : Prop :=
  ∃ leader broker query answer,
    leaderOf (findTopicPartitionMetadata view topic) partition = some leader ∧
    findBroker view leader = .ok broker ∧ listOffsets broker query = .ok answer ∧
    (∀ asked, ListsAt query topic partition asked ↔ asked = timestamp) ∧
    ListsAt answer topic partition offset

/-- What the committed offset of a partition has become. -/
structure Initialized (manager next : OffsetManager) (view : ClusterView)
    (listOffsets : ListOffsets) (offsetFetch : OffsetFetch) (topic : String) (partition : Int) :
    Prop where
  valid : ∃ offset, next.committedOffsets (topic, partition) = some offset ∧ 0 ≤ offset.value
  kept : isInvalidOffset (manager.committedOffsets (topic, partition)) = false →
    next.committedOffsets (topic, partition) = manager.committedOffsets (topic, partition)
  found : isInvalidOffset (manager.committedOffsets (topic, partition)) = true →
    ∃ answer offset, offsetFetch manager.pendingPartitions = .ok answer ∧
      ListsAt answer topic partition offset ∧
      (0 ≤ offset → next.committedOffsets (topic, partition) = some (.ofInt offset)) ∧
      (offset < 0 → ∃ listed,
        Listed view listOffsets topic partition
          (defaultOffset ((manager.topicConfigurations topic).getD false)) listed ∧
        next.committedOffsets (topic, partition) = some (.ofInt listed))

variable {manager next : OffsetManager} {view : ClusterView} {listOffsets : ListOffsets}
  {offsetFetch : OffsetFetch} {consumerOffsets topicOffsets : TopicPartitions}
  {offsets : List (String × List (Int × Option Int))} {topic : String} {partition : Int}

/-! ## One answer -/

/-- The offset that a partition is initialized with. -/
theorem initializePartition_ok {record : InsertionMap String (InsertionMap Int Int)}
    {entry : Int × Int} {result : Int × Option Int}
    (h : initializePartition record topic entry = .ok result) :
    result.1 = entry.1 ∧ (0 ≤ entry.2 → result.2 = some entry.2) ∧
      (entry.2 < 0 → listedOffset record topic entry.1 = .ok result.2) := by
  rw [initializePartition] at h
  by_cases hnegative : entry.2 < 0
  · rw [if_pos hnegative] at h
    obtain ⟨listed, hlisted, h⟩ := bind_eq_ok h
    cases h
    exact ⟨rfl, fun hvalid => absurd hvalid (Int.not_le.mpr hnegative), fun _ => hlisted⟩
  · rw [if_neg hnegative] at h
    cases h
    exact ⟨rfl, fun _ => rfl, fun h => absurd h hnegative⟩

/-- The offsets that are listed are those of the group, or the listed ones where the group has
none. -/
theorem initializeConsumerOffsets_sound
    (h : initializeConsumerOffsets consumerOffsets topicOffsets = .ok offsets) {offset : Option Int}
    (hlists : ListsAt offsets topic partition offset) :
    ∃ groupOffset, ListsAt consumerOffsets topic partition groupOffset ∧
      (0 ≤ groupOffset → offset = some groupOffset) ∧
      (groupOffset < 0 → listedOffset (indexed topicOffsets) topic partition = .ok offset) := by
  obtain ⟨partitions, hpartitions, hoffset⟩ := hlists
  obtain ⟨⟨name, record⟩, hentry, hitem⟩ := exists_item_of_mapM_ok h hpartitions
  obtain ⟨resolved, hresolved, hitem⟩ := bind_eq_ok hitem
  cases hitem
  obtain ⟨⟨id, groupOffset⟩, hpair, hinitialize⟩ := exists_item_of_mapM_ok hresolved hoffset
  obtain ⟨hid, hvalid, hnegative⟩ := initializePartition_ok hinitialize
  have hrecord := InsertionMap.mem_entries_iff.mp
    ((InsertionMap.nameEntries_perm _).mem_iff.mp hentry)
  have hgroup := lists_of_indexed hrecord (InsertionMap.mem_propertyEntries.mp hpair)
  cases hid
  exact ⟨groupOffset, hgroup, hvalid, hnegative⟩

/-- Every partition of the answer keeps its place. -/
theorem initializeConsumerOffsets_covers
    (h : initializeConsumerOffsets consumerOffsets topicOffsets = .ok offsets)
    (hnodup : (consumerOffsets.map Prod.fst).Nodup) {groupOffset : Int}
    (hgroup : ListsAt consumerOffsets topic partition groupOffset) :
    ∃ offset, ListsAt offsets topic partition offset := by
  obtain ⟨record, found, hrecord, hfound⟩ := exists_indexed hnodup hgroup
  have hentry := (InsertionMap.nameEntries_perm _).mem_iff.mpr
    (InsertionMap.mem_entries_iff.mpr hrecord)
  obtain ⟨⟨name, partitions⟩, hresult, hitem⟩ := exists_result_of_mapM_ok h hentry
  obtain ⟨resolved, hresolved, hitem⟩ := bind_eq_ok hitem
  cases hitem
  obtain ⟨⟨id, offset⟩, hoffset, hinitialize⟩ := exists_result_of_mapM_ok hresolved
    (InsertionMap.mem_propertyEntries.mpr hfound)
  have hid : id = partition := (initializePartition_ok hinitialize).1
  exact ⟨offset, partitions, hresult, hid ▸ hoffset⟩

/-! ## The pending partitions -/

/-- The partitions that are pending are the assigned ones without a valid offset. -/
theorem mem_pendingPartitions_iff :
    (∃ partitions, (topic, partitions) ∈ manager.pendingPartitions ∧ partition ∈ partitions) ↔
      manager.isAssigned topic partition = true ∧
        isInvalidOffset (manager.committedOffsets (topic, partition)) = true := by
  have hentries : ∀ list, (topic, list) ∈ manager.memberAssignment.partitions.nameEntries ↔
      manager.memberAssignment.partitions.get? topic = some list := fun list => by
    rw [(InsertionMap.nameEntries_perm _).mem_iff, InsertionMap.mem_entries_iff]
  rw [isAssigned, decide_eq_true_eq]
  constructor
  · intro h
    obtain ⟨partitions, hpending, hpartition⟩ := h
    obtain ⟨⟨name, list⟩, hlist, heq⟩ := List.mem_map.mp (List.mem_filter.mp hpending).1
    cases heq
    obtain ⟨hmem, hinvalid⟩ := List.mem_filter.mp hpartition
    rw [(hentries list).mp hlist]
    exact ⟨hmem, hinvalid⟩
  · intro h
    obtain ⟨hmem, hinvalid⟩ := h
    cases hget : manager.memberAssignment.partitions.get? topic with
    | none =>
        rw [hget] at hmem
        exact absurd hmem List.not_mem_nil
    | some list =>
        rw [hget] at hmem
        have hpartition : partition ∈ list.filter fun partition =>
            isInvalidOffset (manager.committedOffsets (topic, partition)) :=
          List.mem_filter.mpr ⟨hmem, hinvalid⟩
        refine ⟨_, List.mem_filter.mpr ⟨List.mem_map.mpr ⟨(topic, list), (hentries list).mpr hget,
          rfl⟩, ?_⟩, hpartition⟩
        exact decide_eq_true (List.ne_nil_of_mem hpartition)

/-- No topic is pending twice. -/
theorem pendingPartitions_nodup (manager : OffsetManager) :
    (manager.pendingPartitions.map Prod.fst).Nodup := by
  have hentries : (manager.memberAssignment.partitions.nameEntries.map Prod.fst).Nodup :=
    ((InsertionMap.nameEntries_perm _).map Prod.fst).nodup_iff.mpr
      manager.memberAssignment.partitions.nodup
  refine (List.filter_sublist.map Prod.fst).nodup ?_
  rw [List.map_map]
  exact hentries

/-! ## The offsets to store -/

/-- A partition without an offset of the group is asked for with its default. -/
theorem mem_unresolvedPartitions {groupOffset : Int}
    (hgroup : ListsAt consumerOffsets topic partition groupOffset) (hnegative : groupOffset < 0) :
    ∃ request ∈ manager.unresolvedPartitions consumerOffsets, request.topic = topic ∧
      partition ∈ request.partitions ∧
      request.timestamp = defaultOffset ((manager.topicConfigurations topic).getD false) := by
  obtain ⟨partitions, hpartitions, hoffset⟩ := hgroup
  refine ⟨_, List.mem_map.mpr ⟨(topic, partitions), hpartitions, rfl⟩, rfl, ?_, rfl⟩
  exact List.mem_map.mpr ⟨(partition, groupOffset),
    List.mem_filter.mpr ⟨hoffset, decide_eq_true hnegative⟩, rfl⟩

/-- What is asked for a topic has the timestamp of its default offset. -/
theorem timestamp_of_asked {nodeId timestamp : Int}
    (h : Asked view (manager.unresolvedPartitions consumerOffsets) nodeId topic partition
      timestamp) :
    leaderOf (findTopicPartitionMetadata view topic) partition = some nodeId ∧
      timestamp = defaultOffset ((manager.topicConfigurations topic).getD false) := by
  obtain ⟨request, hrequest, htopic, _, hleader, htimestamp⟩ := h
  obtain ⟨entry, _, hentry⟩ := List.mem_map.mp hrequest
  subst hentry
  cases htopic
  exact ⟨hleader, htimestamp⟩

/-- An offset that is fetched for a partition was listed by its leader. -/
theorem listed_of_fetchTopicsOffset
    (hlist : ∀ broker query answer, listOffsets broker query = .ok answer → AnswersList query answer)
    (hfetched : fetchTopicsOffset view listOffsets
      (manager.unresolvedPartitions consumerOffsets) = .ok topicOffsets)
    (hnodup : (consumerOffsets.map Prod.fst).Nodup) {offset : Int}
    (h : ListsAt topicOffsets topic partition offset) :
    Listed view listOffsets topic partition
      (defaultOffset ((manager.topicConfigurations topic).getD false)) offset := by
  have htopics : ((manager.unresolvedPartitions consumerOffsets).map TopicRequest.topic).Nodup := by
    rw [unresolvedPartitions, List.map_map]
    exact hnodup
  obtain ⟨answers, hanswered, _, hlists, _⟩ := fetchTopicsOffset_ok hfetched htopics
  obtain ⟨answer, hmem, hoffset⟩ := (hlists topic partition offset).mp h
  obtain ⟨nodeId, broker, query, hbroker, hanswer, hasked⟩ := hanswered answer hmem
  obtain ⟨timestamp, hquery⟩ :=
    ((hlist broker query answer hanswer).covers topic partition).mp ⟨offset, hoffset⟩
  obtain ⟨hleader, htimestamp⟩ := timestamp_of_asked ((hasked _ _ _).mp hquery)
  subst htimestamp
  refine ⟨nodeId, broker, query, answer, hleader, hbroker, hanswer, fun asked => ?_, hoffset⟩
  constructor
  · intro hlisted
    exact (timestamp_of_asked ((hasked _ _ _).mp hlisted)).2
  · intro heq
    rw [heq]
    exact hquery

/-- A partition that the group has no offset for is fetched, if it is known. -/
theorem exists_fetchTopicsOffset
    (hlist : ∀ broker query answer, listOffsets broker query = .ok answer → AnswersList query answer)
    (hfetched : fetchTopicsOffset view listOffsets
      (manager.unresolvedPartitions consumerOffsets) = .ok topicOffsets)
    (hnodup : (consumerOffsets.map Prod.fst).Nodup)
    (hknown : partitionEntry (findTopicPartitionMetadata view topic) partition ≠ none)
    {groupOffset : Int} (hgroup : ListsAt consumerOffsets topic partition groupOffset)
    (hnegative : groupOffset < 0) :
    ∃ record offset, (indexed topicOffsets).get? topic = some record ∧
      record.get? partition = some offset := by
  have htopics : ((manager.unresolvedPartitions consumerOffsets).map TopicRequest.topic).Nodup := by
    rw [unresolvedPartitions, List.map_map]
    exact hnodup
  obtain ⟨request, hrequest, htopic, hpartition, htimestamp⟩ :=
    @mem_unresolvedPartitions manager _ _ _ _ hgroup hnegative
  subst htopic
  obtain ⟨nodeId, hleader⟩ := fetchTopicsOffset_leader hfetched hrequest hpartition hknown
  obtain ⟨answers, _, hasks, hlists, hdistinct⟩ := fetchTopicsOffset_ok hfetched htopics
  have hasked : Asked view (manager.unresolvedPartitions consumerOffsets) nodeId request.topic
      partition request.timestamp :=
    ⟨request, hrequest, rfl, hpartition, hleader, rfl⟩
  obtain ⟨answer, hmem, broker, query, _, hanswer, hquery⟩ := hasks _ _ _ _ hasked
  obtain ⟨offset, hoffset⟩ := ((hlist broker query answer hanswer).covers _ _).mpr
    ⟨_, (hquery _ _ _).mpr hasked⟩
  exact exists_indexed hdistinct ((hlists _ _ _).mpr ⟨answer, hmem, hoffset⟩)

/-- The offsets that are stored: for each partition of the answer that of the group, or the listed
one. -/
theorem initialOffsets_ok
    (hlist : ∀ broker query answer, listOffsets broker query = .ok answer → AnswersList query answer)
    (h : manager.initialOffsets view listOffsets consumerOffsets = .ok offsets)
    (hnodup : (consumerOffsets.map Prod.fst).Nodup) :
    (∀ topic partition groupOffset, ListsAt consumerOffsets topic partition groupOffset →
      ∃ offset, ListsAt offsets topic partition offset) ∧
    ∀ topic partition offset, ListsAt offsets topic partition offset →
      ∃ groupOffset, ListsAt consumerOffsets topic partition groupOffset ∧
        (0 ≤ groupOffset → offset = some groupOffset) ∧
        (groupOffset < 0 →
          (partitionEntry (findTopicPartitionMetadata view topic) partition ≠ none →
            offset ≠ none) ∧
          ∀ listed, offset = some listed → Listed view listOffsets topic partition
            (defaultOffset ((manager.topicConfigurations topic).getD false)) listed) := by
  rw [initialOffsets] at h
  split at h
  · obtain ⟨topicOffsets, hfetched, h⟩ := bind_eq_ok h
    refine ⟨fun topic partition groupOffset hgroup =>
      initializeConsumerOffsets_covers h hnodup hgroup, fun topic partition offset hoffset => ?_⟩
    obtain ⟨groupOffset, hgroup, hvalid, hnegative⟩ := initializeConsumerOffsets_sound h hoffset
    refine ⟨groupOffset, hgroup, hvalid, fun hlt => ⟨fun hknown => ?_, fun listed hstored => ?_⟩⟩
    · obtain ⟨record, found, hrecord, hfound⟩ :=
        exists_fetchTopicsOffset hlist hfetched hnodup hknown hgroup hlt
      have hlisted := hnegative hlt
      rw [listedOffset, hrecord] at hlisted
      rw [← Except.ok.inj hlisted, hfound]
      exact Option.some_ne_none found
    · refine listed_of_fetchTopicsOffset hlist hfetched hnodup ?_
      have hlisted := hnegative hlt
      rw [hstored, listedOffset] at hlisted
      cases hrecord : (indexed topicOffsets).get? topic with
      | none =>
          rw [hrecord] at hlisted
          dsimp only at hlisted
          split at hlisted <;> cases hlisted
      | some record =>
          rw [hrecord] at hlisted
          exact lists_of_indexed hrecord (Except.ok.inj hlisted)
  · next hresolved =>
      cases h
      -- nothing is unresolved, so no offset of the group is negative
      have hnone : ∀ topic partition groupOffset,
          ListsAt consumerOffsets topic partition groupOffset → ¬ groupOffset < 0 := by
        intro topic partition groupOffset hgroup hnegative
        obtain ⟨request, hrequest, _, hpartition, _⟩ :=
          @mem_unresolvedPartitions manager _ _ _ _ hgroup hnegative
        refine hresolved (List.any_eq_true.mpr ⟨request, hrequest, ?_⟩)
        exact decide_eq_true (List.ne_nil_of_mem hpartition)
      have hlists : ∀ topic partition offset,
          ListsAt (consumerOffsets.map fun entry =>
            (entry.1, entry.2.map fun pair => (pair.1, some pair.2))) topic partition offset ↔
          ∃ groupOffset, ListsAt consumerOffsets topic partition groupOffset ∧
            offset = some groupOffset := by
        intro topic partition offset
        simp only [ListsAt, List.mem_map, Prod.exists, Prod.mk.injEq]
        constructor
        · intro hlisted
          obtain ⟨_, ⟨_, list, hlist, rfl, rfl⟩, hpair⟩ := hlisted
          obtain ⟨⟨id, groupOffset⟩, hmem, heq⟩ := List.mem_map.mp hpair
          cases heq
          exact ⟨groupOffset, ⟨list, hlist, hmem⟩, rfl⟩
        · intro hlisted
          obtain ⟨groupOffset, ⟨list, hlist, hmem⟩, rfl⟩ := hlisted
          exact ⟨_, ⟨topic, list, hlist, rfl, rfl⟩, List.mem_map.mpr ⟨_, hmem, rfl⟩⟩
      refine ⟨fun topic partition groupOffset hgroup => ?_,
        fun topic partition offset hoffset => ?_⟩
      · exact ⟨some groupOffset, (hlists _ _ _).mpr ⟨groupOffset, hgroup, rfl⟩⟩
      · obtain ⟨groupOffset, hgroup, heq⟩ := (hlists _ _ _).mp hoffset
        exact ⟨groupOffset, hgroup, fun _ => heq, fun hlt =>
          absurd hlt (hnone _ _ _ hgroup)⟩

/-! ## resolveOffsets -/

/-- Only pending partitions are changed, and only their committed offsets. -/
theorem resolveOffsets_ok
    (hfetch : ∀ answer, offsetFetch manager.pendingPartitions = .ok answer →
      AnswersFetch manager.pendingPartitions answer)
    (hlist : ∀ broker query answer, listOffsets broker query = .ok answer → AnswersList query answer)
    (h : manager.resolveOffsets view listOffsets offsetFetch = .ok next) :
    next = { manager with committedOffsets := next.committedOffsets } ∧
    ∀ topic partition,
      ¬ (manager.isAssigned topic partition = true ∧
          isInvalidOffset (manager.committedOffsets (topic, partition)) = true) ∧
        next.committedOffsets (topic, partition) = manager.committedOffsets (topic, partition) ∨
      ∃ answer offset stored, offsetFetch manager.pendingPartitions = .ok answer ∧
        (manager.isAssigned topic partition = true ∧
          isInvalidOffset (manager.committedOffsets (topic, partition)) = true) ∧
        ListsAt answer topic partition offset ∧
        next.committedOffsets (topic, partition) = Option.map Offset.ofInt stored ∧
        (0 ≤ offset → stored = some offset) ∧
        (offset < 0 →
          (partitionEntry (findTopicPartitionMetadata view topic) partition ≠ none →
            stored ≠ none) ∧
          ∀ listed, stored = some listed → Listed view listOffsets topic partition
            (defaultOffset ((manager.topicConfigurations topic).getD false)) listed) := by
  rw [resolveOffsets] at h
  split at h
  · next hnone =>
      cases h
      refine ⟨rfl, fun topic partition => Or.inl ⟨fun hpending => ?_, rfl⟩⟩
      obtain ⟨partitions, hmem, _⟩ := mem_pendingPartitions_iff.mpr hpending
      rw [hnone] at hmem
      exact absurd hmem List.not_mem_nil
  · obtain ⟨answer, hanswer, h⟩ := bind_eq_ok h
    obtain ⟨offsets, hoffsets, h⟩ := bind_eq_ok h
    cases h
    have hanswers := hfetch _ hanswer
    obtain ⟨hcovers, hsound⟩ := initialOffsets_ok hlist hoffsets hanswers.topics
    refine ⟨rfl, fun topic partition => ?_⟩
    have hpending := (hanswers.covers topic partition).trans mem_pendingPartitions_iff
    -- a place is overwritten by an entry of the answer, or it is in none and keeps its offset
    rcases assigned_cases manager.committedOffsets
        ((ungrouped offsets).map fun entry => (entry.1, entry.2.map Offset.ofInt))
        (topic, partition) with hstored | ⟨habsent, hkept⟩
    · obtain ⟨⟨⟨name, id⟩, stored⟩, hentry, heq⟩ := List.mem_map.mp hstored
      obtain ⟨hkey, hvalue⟩ := Prod.mk.inj heq
      cases hkey
      obtain ⟨offset, hgroup, hvalid, hnegative⟩ := hsound _ _ _ (mem_ungrouped.mp hentry)
      exact Or.inr ⟨answer, offset, stored, hanswer, hpending.mp ⟨offset, hgroup⟩, hgroup,
        hvalue.symm, hvalid, hnegative⟩
    · refine Or.inl ⟨fun hunset => ?_, hkept⟩
      obtain ⟨offset, hgroup⟩ := hpending.mpr hunset
      obtain ⟨stored, hlisted⟩ := hcovers _ _ _ hgroup
      rw [List.map_map] at habsent
      exact habsent (List.mem_map_of_mem (mem_ungrouped.mpr hlisted))

/-- An assigned partition that is known gets the committed offset that it is to have. -/
theorem resolveOffsets_initialized
    (hfetch : ∀ answer, offsetFetch manager.pendingPartitions = .ok answer →
      AnswersFetch manager.pendingPartitions answer)
    (hlist : ∀ broker query answer, listOffsets broker query = .ok answer → AnswersList query answer)
    (h : manager.resolveOffsets view listOffsets offsetFetch = .ok next)
    (hassigned : manager.isAssigned topic partition = true)
    (hknown : partitionEntry (findTopicPartitionMetadata view topic) partition ≠ none) :
    Initialized manager next view listOffsets offsetFetch topic partition := by
  rcases (resolveOffsets_ok hfetch hlist h).2 topic partition with
    ⟨hset, hkept⟩ | ⟨answer, offset, stored, hanswer, hunset, hgroup, hnext, hvalid, hnegative⟩
  · have hinvalid : isInvalidOffset (manager.committedOffsets (topic, partition)) = false :=
      Bool.eq_false_iff.mpr fun h => hset ⟨hassigned, h⟩
    refine ⟨?_, fun _ => hkept, fun h => absurd h (by simp [hinvalid])⟩
    rw [hkept]
    cases hcommitted : manager.committedOffsets (topic, partition) with
    | none =>
        rw [hcommitted] at hinvalid
        cases hinvalid
    | some old =>
        rw [hcommitted] at hinvalid
        exact ⟨old, rfl, Int.not_lt.mp (of_decide_eq_false hinvalid)⟩
  · have hlisted : offset < 0 → ∃ listed, stored = some listed ∧ Listed view listOffsets topic
        partition (defaultOffset ((manager.topicConfigurations topic).getD false)) listed := by
      intro hlt
      obtain ⟨listed, heq⟩ := Option.ne_none_iff_exists'.mp ((hnegative hlt).1 hknown)
      exact ⟨listed, heq, (hnegative hlt).2 listed heq⟩
    -- either way the stored offset is not negative
    have hfound : ∃ value, 0 ≤ value ∧ stored = some value := by
      by_cases hlt : offset < 0
      · obtain ⟨listed, heq, _, broker, query, answer, _, _, hanswer, _, hlists⟩ := hlisted hlt
        exact ⟨listed, (hlist broker query answer hanswer).valid _ _ _ hlists, heq⟩
      · exact ⟨offset, Int.not_lt.mp hlt, hvalid (Int.not_lt.mp hlt)⟩
    refine ⟨?_, fun h => absurd hunset.2 (by simp [h]), fun _ => ⟨answer, offset, hanswer, hgroup,
      fun hle => ?_, fun hlt => ?_⟩⟩
    · obtain ⟨value, hle, heq⟩ := hfound
      exact ⟨.ofInt value, by rw [hnext, heq]; rfl, hle⟩
    · rw [hnext, hvalid hle]
      rfl
    · obtain ⟨listed, heq, hlisted⟩ := hlisted hlt
      exact ⟨listed, hlisted, by rw [hnext, heq]; rfl⟩

/-! ## Answers of functions -/

/-- An answer with the values of a function. -/
def answerWith {ν : Type} (value : String → ν → Int × Int) (request : List (String × List ν)) :
    TopicPartitions :=
  request.map fun entry => (entry.1, entry.2.map (value entry.1))

/-- What an answer lists for a request. -/
theorem lists_answerWith {ν : Type} {value : String → ν → Int × Int}
    {request : List (String × List ν)} {offset : Int} :
    ListsAt (answerWith value request) topic partition offset ↔
      ∃ list item, (topic, list) ∈ request ∧ item ∈ list ∧ value topic item = (partition, offset) := by
  simp only [ListsAt, answerWith, List.mem_map, Prod.exists, Prod.mk.injEq]
  constructor
  · intro h
    obtain ⟨_, ⟨_, list, hlist, rfl, rfl⟩, hitem⟩ := h
    obtain ⟨item, hitem, hvalue⟩ := List.mem_map.mp hitem
    exact ⟨list, item, hlist, hitem, hvalue⟩
  · intro h
    obtain ⟨list, item, hlist, hitem, hvalue⟩ := h
    exact ⟨_, ⟨topic, list, hlist, rfl, rfl⟩, List.mem_map.mpr ⟨item, hitem, hvalue⟩⟩

/-- A coordinator that answers with the offsets of a function. -/
theorem answersFetch_answerWith {request : List (String × List Int)} (group : String → Int → Int)
    (hnodup : (request.map Prod.fst).Nodup) :
    AnswersFetch request (answerWith (fun topic id => (id, group topic id)) request) where
  topics := by
    rw [answerWith, List.map_map]
    exact hnodup
  covers topic partition := by
    simp only [lists_answerWith, Prod.mk.injEq]
    constructor
    · intro h
      obtain ⟨_, list, id, hlist, hid, rfl, _⟩ := h
      exact ⟨list, hlist, hid⟩
    · intro h
      obtain ⟨list, hlist, hid⟩ := h
      exact ⟨_, list, partition, hlist, hid, rfl, rfl⟩
  agrees topic partition first second hfirst hsecond := by
    obtain ⟨_, _, _, _, hfirst⟩ := lists_answerWith.mp hfirst
    obtain ⟨_, _, _, _, hsecond⟩ := lists_answerWith.mp hsecond
    cases hfirst
    cases hsecond
    rfl

/-- A broker that answers with the offsets of a function. -/
theorem answersList_answerWith (query : TopicPartitions) {listed : String → Int → Int → Int}
    (hvalid : ∀ topic partition timestamp, 0 ≤ listed topic partition timestamp) :
    AnswersList query (answerWith (fun topic pair => (pair.1, listed topic pair.1 pair.2)) query) where
  covers topic partition := by
    simp only [lists_answerWith, Prod.mk.injEq]
    constructor
    · intro h
      obtain ⟨_, list, pair, hlist, hpair, rfl, _⟩ := h
      exact ⟨pair.2, list, hlist, hpair⟩
    · intro h
      obtain ⟨timestamp, list, hlist, hpair⟩ := h
      exact ⟨_, list, _, hlist, hpair, rfl, rfl⟩
  valid topic partition offset h := by
    obtain ⟨_, pair, _, _, hvalue⟩ := lists_answerWith.mp h
    cases hvalue
    exact hvalid topic pair.1 pair.2

/-- The metadata of the sample. -/
def sampleView : ClusterView :=
  { topicMetadata := [("t", [⟨0, some 1⟩, ⟨1, some 1⟩, ⟨2, some 2⟩])]
    pool := fun _ => some 0
    connectError := fun _ => none }

/-- An offset manager with three partitions, of which one has a committed offset. -/
def sample : OffsetManager :=
  { autoCommit := true
    memberAssignment := ⟨InsertionMap.empty.set "t" [0, 1, 2], by decide⟩
    topicConfigurations := fun _ => some true
    resolvedOffsets := fun _ => .empty
    committedOffsets := Function.update (fun _ => none) ("t", 0) (some (.ofInt 7)) }

/-- The group has an offset for the second partition and none for the third, which begins at 4. -/
def sampleFetch : OffsetFetch :=
  fun request => .ok (answerWith (fun _ id => (id, if id = 1 then 3 else -1)) request)

def sampleList : ListOffsets :=
  fun _ query => .ok (answerWith (fun _ pair => (pair.1, 4)) query)

/-- Two partitions of the sample are pending. -/
theorem sample_pending : sample.pendingPartitions = [("t", [1, 2])] := by
  have hentries : sample.memberAssignment.partitions.nameEntries = [("t", [0, 1, 2])] :=
    InsertionMap.nameEntries_of_entries rfl
  rw [pendingPartitions, hentries]
  decide

/-- The sample broker lists the offset of the second partition. -/
theorem sample_fetched :
    fetchTopicsOffset sampleView sampleList [⟨"t", [2], true, none⟩] = .ok [("t", [(2, 4)])] :=
  fetchTopicsOffset_single (by decide) rfl rfl rfl

/-- The sample manager resolves both partitions. -/
theorem sample_resolves :
    sample.resolveOffsets sampleView sampleList sampleFetch =
      .ok (sample.storeOffsets [("t", [(1, some 3), (2, some 4)])]) := by
  have hunresolved : sample.unresolvedPartitions [("t", [(1, 3), (2, -1)])] =
      [⟨"t", [2], true, none⟩] := rfl
  have hoffsets : sample.initialOffsets sampleView sampleList [("t", [(1, 3), (2, -1)])] =
      .ok [("t", [(1, some 3), (2, some 4)])] := by
    rw [initialOffsets, hunresolved, if_pos (by decide), sample_fetched, ok_bind,
      initializeConsumerOffsets, InsertionMap.nameEntries_of_entries rfl]
    rfl
  rw [resolveOffsets, if_neg (by rw [sample_pending]; decide), sample_pending]
  show (sample.initialOffsets sampleView sampleList [("t", [(1, 3), (2, -1)])] >>= _) = _
  rw [hoffsets]
  rfl

/-- The second partition of the sample is initialized. -/
theorem resolveOffsets_initialized_sample :
    Initialized sample (sample.storeOffsets [("t", [(1, some 3), (2, some 4)])]) sampleView
      sampleList sampleFetch "t" 2 := by
  refine resolveOffsets_initialized (fun answer hanswer => ?_) (fun broker query answer hanswer => ?_)
    sample_resolves (by decide) (by decide)
  · cases hanswer
    exact answersFetch_answerWith (fun _ id => if id = 1 then 3 else -1) (by
      rw [sample_pending]
      decide)
  · cases hanswer
    exact answersList_answerWith query (@fun _ _ _ => (by decide : (0 : Int) ≤ 4))

end OffsetManager

end KafkaJs.Consumer
