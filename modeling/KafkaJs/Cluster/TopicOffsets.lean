import KafkaJs.Cluster.Metadata
import KafkaJs.Data.Nested
import KafkaJs.Data.Traversal

/-!
# The offsets of topics

`fetchTopicsOffset` asks the leaders of partitions for their earliest or latest offsets. The
partitions of several topics are regrouped by leader and, for each leader, by topic; the answers of
the leaders are merged by topic.

`fetchTopicsOffset_ok` says that nothing is mixed up or lost on the way: the leader of every
partition is asked for it, and the result has the offsets that were listed, each under its topic and
partition.
-/

namespace KafkaJs.Cluster

open Data

/-- `EARLIEST_OFFSET`. -/
def earliestOffset : Int := -2

/-- `LATEST_OFFSET`. -/
def latestOffset : Int := -1

/-- `defaultOffset`. -/
def defaultOffset (fromBeginning : Bool) : Int :=
  if fromBeginning then earliestOffset else latestOffset

/-- What is asked for a topic. -/
structure TopicRequest where
  topic : String
  partitions : List Int
  fromBeginning : Bool
  fromTimestamp : Option Int := none

/-- The timestamp asked for. -/
def TopicRequest.timestamp (request : TopicRequest) : Int :=
  request.fromTimestamp.getD (defaultOffset request.fromBeginning)

/-- Partitions by topic, each with the timestamp asked for or the offset listed. -/
abbrev TopicPartitions := List (String × List (Int × Int))

/-- `listOffsets` of a broker. -/
abbrev ListOffsets := Broker → TopicPartitions → Except KafkaError TopicPartitions

/-- `partitionsPerBroker`: by node and topic. -/
abbrev PartitionsPerBroker := InsertionMap Int (InsertionMap String (List Int))

/-- The loop over the leaders of the partitions of one topic. -/
def addLeaders (topic : String) (partitions : List Int)
    (partitionsPerLeader : InsertionMap Int (List Int)) (nodeIds : List Int)
    (partitionsPerBroker : PartitionsPerBroker) : PartitionsPerBroker :=
  nodeIds.foldl (fun perBroker nodeId =>
    perBroker.set nodeId (((perBroker.get? nodeId).getD .empty).set topic
      (partitions.filter fun partition =>
        partition ∈ (partitionsPerLeader.get? nodeId).getD []))) partitionsPerBroker

/-- One topic of the loop in `fetchTopicsOffset`: the partitions by leader, and the timestamps of
the topics. -/
def indexTopic (view : ClusterView) (state : PartitionsPerBroker × (String → Int))
    (request : TopicRequest) : Except KafkaError (PartitionsPerBroker × (String → Int)) := do
  let partitionsPerLeader ← findLeaderForPartitions
    (findTopicPartitionMetadata view request.topic) request.partitions
  return (addLeaders request.topic request.partitions partitionsPerLeader
      (propertyKeys partitionsPerLeader.keys) state.1,
    Function.update state.2 request.topic request.timestamp)

/-- The topics of the request to one broker. -/
def brokerTopics (topicConfigurations : String → Int)
    (partitions : InsertionMap String (List Int)) : TopicPartitions :=
  partitions.nameEntries.map fun entry =>
    (entry.1, entry.2.map fun partition => (partition, topicConfigurations entry.1))

/-- The error of spreading a property that is no list. -/
def notIterable : KafkaError :=
  { name := .typeError, message := "object is not iterable", retriable := none }

/-- `mergeTopics`. A name that every object inherits finds a property that is no list. -/
def mergeTopics (obj : InsertionMap String (List (Int × Int))) (entry : String × List (Int × Int)) :
    Except KafkaError (InsertionMap String (List (Int × Int))) :=
  match obj.get? entry.1 with
  | some partitions => .ok (obj.set entry.1 (partitions ++ entry.2))
  | none =>
      if entry.1 ∈ inheritedNames then .error notIterable
      else .ok (obj.set entry.1 ([] ++ entry.2))

/-- `fetchTopicsOffset`. -/
def fetchTopicsOffset (view : ClusterView) (listOffsets : ListOffsets)
    (topics : List TopicRequest) : Except KafkaError TopicPartitions := do
  -- the timestamp that a topic has before its turn is not read
  let (partitionsPerBroker, topicConfigurations) ←
    topics.foldlM (indexTopic view) (InsertionMap.empty, fun _ => latestOffset)
  let responses ← (propertyKeys partitionsPerBroker.keys).mapM fun nodeId => do
    let broker ← findBroker view nodeId
    listOffsets broker
      (brokerTopics topicConfigurations ((partitionsPerBroker.get? nodeId).getD .empty))
  let partitionsPerTopic ← responses.flatten.foldlM mergeTopics InsertionMap.empty
  return partitionsPerTopic.nameEntries

/-! ## The requests -/

/-- A partition that the broker is to be asked for: one of a given topic that it leads. -/
def Asked (view : ClusterView) (topics : List TopicRequest) (nodeId : Int) (topic : String)
    (partition timestamp : Int) : Prop :=
  ∃ request ∈ topics, request.topic = topic ∧ partition ∈ request.partitions ∧
    leaderOf (findTopicPartitionMetadata view topic) partition = some nodeId ∧
    timestamp = request.timestamp

/-- What is kept for a node and a topic. -/
def partitionsOf (partitionsPerBroker : PartitionsPerBroker) (nodeId : Int) (topic : String) :
    List Int :=
  (((partitionsPerBroker.get? nodeId).getD .empty).get? topic).getD []

variable {view : ClusterView} {listOffsets : ListOffsets} {topics : List TopicRequest}

/-- Adding the leaders of a topic gives each of them the topic's partitions that it leads. -/
theorem partitionsOf_addLeaders (topic : String) (partitions : List Int)
    (partitionsPerLeader : InsertionMap Int (List Int)) (nodeIds : List Int)
    (perBroker : PartitionsPerBroker) (nodeId : Int) (other : String) :
    partitionsOf (addLeaders topic partitions partitionsPerLeader nodeIds perBroker) nodeId other =
      if other = topic ∧ nodeId ∈ nodeIds then
        partitions.filter fun partition => partition ∈ (partitionsPerLeader.get? nodeId).getD []
      else partitionsOf perBroker nodeId other := by
  induction nodeIds generalizing perBroker with
  | nil => simp [addLeaders]
  | cons first nodeIds ih =>
      have hstep : addLeaders topic partitions partitionsPerLeader (first :: nodeIds) perBroker =
          addLeaders topic partitions partitionsPerLeader nodeIds
            (addLeaders topic partitions partitionsPerLeader [first] perBroker) := rfl
      rw [hstep, ih]
      by_cases hrest : other = topic ∧ nodeId ∈ nodeIds
      · rw [if_pos hrest, if_pos ⟨hrest.1, List.mem_cons_of_mem first hrest.2⟩]
      · rw [if_neg hrest]
        show ((((perBroker.set first _).get? nodeId).getD .empty).get? other).getD [] = _
        rw [InsertionMap.get?_set]
        by_cases hnode : nodeId = first
        · rw [if_pos hnode, Option.getD_some, InsertionMap.get?_set, hnode]
          by_cases htopic : other = topic
          · rw [if_pos htopic, if_pos ⟨htopic, List.mem_cons_self⟩]
            rfl
          · rw [if_neg htopic, if_neg fun h => htopic h.1]
            rfl
        · rw [if_neg hnode, if_neg]
          · rfl
          · intro h
            rcases List.mem_cons.mp h.2 with hfirst | hmem
            · exact hnode hfirst
            · exact hrest ⟨h.1, hmem⟩

/-- One topic of the loop: under each node stand the partitions of the topic that it leads. -/
theorem indexTopic_ok {state next : PartitionsPerBroker × (String → Int)} {request : TopicRequest}
    (h : indexTopic view state request = .ok next)
    (hnew : ∀ nodeId, partitionsOf state.1 nodeId request.topic = []) (nodeId : Int)
    (topic : String) :
    partitionsOf next.1 nodeId topic =
      (if topic = request.topic then
        request.partitions.filter fun partition =>
          leaderOf (findTopicPartitionMetadata view topic) partition = some nodeId
      else partitionsOf state.1 nodeId topic) := by
  rw [indexTopic] at h
  obtain ⟨partitionsPerLeader, hleaders, h⟩ := bind_eq_ok h
  cases h
  show partitionsOf (addLeaders _ _ _ _ _) nodeId topic = _
  rw [partitionsOf_addLeaders]
  have hled := findLeaderForPartitions_ok hleaders nodeId
  have hkeys := @findLeaderForPartitions_keys _ _ _ hleaders nodeId
  by_cases htopic : topic = request.topic
  · subst htopic
    rw [if_pos rfl]
    by_cases hnode : nodeId ∈ partitionsPerLeader.keys
    · rw [if_pos ⟨rfl, mem_propertyKeys.mpr hnode⟩, hled]
      refine List.filter_congr fun partition hpartition => ?_
      simp [hpartition]
    · rw [if_neg fun h => hnode (mem_propertyKeys.mp h.2), hnew]
      symm
      rw [List.filter_eq_nil_iff]
      intro partition hpartition hleader
      exact hnode (hkeys.mpr ⟨partition, hpartition, of_decide_eq_true hleader⟩)
  · rw [if_neg htopic, if_neg fun h => htopic h.1]

/-- Indexing a request records its topic's timestamp. -/
theorem indexTopic_timestamp {state next : PartitionsPerBroker × (String → Int)}
    {request : TopicRequest} (h : indexTopic view state request = .ok next) :
    next.2 = Function.update state.2 request.topic request.timestamp := by
  rw [indexTopic] at h
  obtain ⟨_, _, h⟩ := bind_eq_ok h
  cases h
  rfl

/-- The loop over distinct topics keeps what stands under other topics, and adds the partitions by
leader. -/
theorem foldlM_indexTopic_ok {state result : PartitionsPerBroker × (String → Int)}
    (h : topics.foldlM (indexTopic view) state = .ok result)
    (hnodup : (topics.map TopicRequest.topic).Nodup)
    (hnew : ∀ request ∈ topics, ∀ nodeId, partitionsOf state.1 nodeId request.topic = []) :
    (∀ nodeId topic partition, partition ∈ partitionsOf result.1 nodeId topic ↔
      partition ∈ partitionsOf state.1 nodeId topic ∨
        ∃ request ∈ topics, request.topic = topic ∧ partition ∈ request.partitions ∧
          leaderOf (findTopicPartitionMetadata view topic) partition = some nodeId) ∧
    (∀ request ∈ topics, result.2 request.topic = request.timestamp) ∧
    ∀ topic, topic ∉ topics.map TopicRequest.topic → result.2 topic = state.2 topic := by
  induction topics generalizing state with
  | nil =>
      cases h
      exact ⟨by simp, by simp, fun _ _ => rfl⟩
  | cons first topics ih =>
      rw [List.foldlM_cons] at h
      rw [List.map_cons, List.nodup_cons] at hnodup
      obtain ⟨next, hstep, hrest⟩ := bind_eq_ok h
      have hfirst := indexTopic_ok hstep (hnew first List.mem_cons_self)
      have htimestamp := indexTopic_timestamp hstep
      have hother : ∀ request ∈ topics, request.topic ≠ first.topic := fun request hrequest heq =>
        hnodup.1 (heq ▸ List.mem_map_of_mem hrequest)
      obtain ⟨hparts, htimes, hkept⟩ := ih hrest hnodup.2 fun request hrequest nodeId => by
        rw [hfirst, if_neg (hother request hrequest)]
        exact hnew request (List.mem_cons_of_mem first hrequest) nodeId
      refine ⟨fun nodeId topic partition => ?_, fun request hrequest => ?_, fun topic htopic => ?_⟩
      · rw [hparts, hfirst, List.exists_mem_cons_iff]
        by_cases htopic : topic = first.topic
        · subst htopic
          rw [if_pos rfl, hnew first List.mem_cons_self]
          simp
        · rw [if_neg htopic, ← or_assoc]
          simp [Ne.symm htopic]
      · rcases List.mem_cons.mp hrequest with heq | hrest
        · rw [heq, hkept first.topic hnodup.1, htimestamp, Function.update_self]
        · exact htimes request hrest
      · rw [List.map_cons, List.mem_cons, not_or] at htopic
        rw [hkept topic htopic.2, htimestamp, Function.update_of_ne htopic.1]

/-- The loop completes only if every known partition has a leader. -/
theorem foldlM_indexTopic_leader {state result : PartitionsPerBroker × (String → Int)}
    (h : topics.foldlM (indexTopic view) state = .ok result) {request : TopicRequest}
    (hrequest : request ∈ topics) {partition : Int} (hpartition : partition ∈ request.partitions)
    (hknown : partitionEntry (findTopicPartitionMetadata view request.topic) partition ≠ none) :
    ∃ nodeId, leaderOf (findTopicPartitionMetadata view request.topic) partition = some nodeId := by
  induction topics generalizing state with
  | nil => exact absurd hrequest List.not_mem_nil
  | cons first topics ih =>
      rw [List.foldlM_cons] at h
      obtain ⟨next, hstep, hrest⟩ := bind_eq_ok h
      rcases List.mem_cons.mp hrequest with heq | hmem
      · obtain ⟨partitionsPerLeader, hleaders, _⟩ := bind_eq_ok hstep
        obtain ⟨entry, hentry⟩ := Option.ne_none_iff_exists'.mp hknown
        rw [heq] at hpartition hentry ⊢
        exact findLeaderForPartitions_leader hleaders hpartition hentry
      · exact ih hrest hmem

/-- The request to one broker lists what is kept for it. -/
theorem lists_brokerTopics {topicConfigurations : String → Int}
    {partitions : InsertionMap String (List Int)} {topic : String} {partition timestamp : Int} :
    ListsAt (brokerTopics topicConfigurations partitions) topic partition timestamp ↔
      partition ∈ (partitions.get? topic).getD [] ∧ timestamp = topicConfigurations topic := by
  have hentries : ∀ list, (topic, list) ∈ partitions.nameEntries ↔
      partitions.get? topic = some list := fun list => by
    rw [partitions.nameEntries_perm.mem_iff, InsertionMap.mem_entries_iff]
  simp only [ListsAt, brokerTopics, List.mem_map, Prod.exists, Prod.mk.injEq]
  constructor
  · intro h
    obtain ⟨_, ⟨_, list, hlist, rfl, rfl⟩, hpartition⟩ := h
    obtain ⟨_, hmem, rfl, rfl⟩ := List.mem_map.mp hpartition
    rw [(hentries list).mp hlist]
    exact ⟨hmem, rfl⟩
  · intro h
    obtain ⟨hmem, rfl⟩ := h
    cases hget : partitions.get? topic with
    | none =>
        rw [hget] at hmem
        exact absurd hmem List.not_mem_nil
    | some list =>
        rw [hget] at hmem
        exact ⟨_, ⟨topic, list, (hentries list).mpr hget, rfl, rfl⟩,
          List.mem_map.mpr ⟨partition, hmem, rfl⟩⟩

/-! ## The answers -/

/-- The partitions of an answer are added to those of their topic. -/
theorem mergeTopics_ok {start next : InsertionMap String (List (Int × Int))}
    {answer : String × List (Int × Int)} (h : mergeTopics start answer = .ok next) :
    next = start.set answer.1 ((start.get? answer.1).getD [] ++ answer.2) := by
  rw [mergeTopics] at h
  cases hget : start.get? answer.1 with
  | some before =>
      rw [hget] at h
      cases h
      rfl
  | none =>
      rw [hget] at h
      dsimp only at h
      split at h
      · cases h
      · cases h
        rfl

/-- Merging the answers by topic loses nothing and adds nothing. -/
theorem foldlM_mergeTopics_ok {answers : TopicPartitions}
    {start result : InsertionMap String (List (Int × Int))}
    (h : answers.foldlM mergeTopics start = .ok result) (topic : String) (partition offset : Int) :
    (partition, offset) ∈ (result.get? topic).getD [] ↔
      (partition, offset) ∈ (start.get? topic).getD [] ∨
        ListsAt answers topic partition offset := by
  induction answers generalizing start with
  | nil =>
      cases h
      simp
  | cons answer answers ih =>
      rw [List.foldlM_cons] at h
      obtain ⟨next, hstep, hrest⟩ := bind_eq_ok h
      have hlists : ListsAt (answer :: answers) topic partition offset ↔
          topic = answer.1 ∧ (partition, offset) ∈ answer.2 ∨
            ListsAt answers topic partition offset := by
        rw [← List.singleton_append, lists_append]
        simp [ListsAt, Prod.ext_iff]
      rw [ih hrest, mergeTopics_ok hstep, hlists, InsertionMap.get?_set]
      by_cases htopic : topic = answer.1
      · subst htopic
        rw [if_pos rfl, Option.getD_some, List.mem_append, or_assoc]
        simp
      · rw [if_neg htopic]
        simp [htopic]

/-- A node has answered the request for the partitions that it leads. -/
def Answered (view : ClusterView) (listOffsets : ListOffsets) (topics : List TopicRequest)
    (nodeId : Int) (answer : TopicPartitions) : Prop :=
  ∃ broker query, findBroker view nodeId = .ok broker ∧ listOffsets broker query = .ok answer ∧
    ∀ topic partition timestamp,
      ListsAt query topic partition timestamp ↔ Asked view topics nodeId topic partition timestamp

/-- The result merges the answers of the leaders of all partitions asked for. -/
theorem fetchTopicsOffset_ok {result : TopicPartitions}
    (h : fetchTopicsOffset view listOffsets topics = .ok result)
    (hnodup : (topics.map TopicRequest.topic).Nodup) :
    ∃ answers : List TopicPartitions,
      (∀ answer ∈ answers, ∃ nodeId, Answered view listOffsets topics nodeId answer) ∧
      (∀ nodeId topic partition timestamp, Asked view topics nodeId topic partition timestamp →
        ∃ answer ∈ answers, Answered view listOffsets topics nodeId answer) ∧
      (∀ topic partition offset, ListsAt result topic partition offset ↔
        ∃ answer ∈ answers, ListsAt answer topic partition offset) ∧
      (result.map Prod.fst).Nodup := by
  rw [fetchTopicsOffset] at h
  obtain ⟨⟨perBroker, timestamps⟩, hindex, h⟩ := bind_eq_ok h
  obtain ⟨responses, hresponses, h⟩ := bind_eq_ok h
  obtain ⟨merged, hmerged, h⟩ := bind_eq_ok h
  cases h
  obtain ⟨hparts, htimes, _⟩ := foldlM_indexTopic_ok hindex hnodup fun _ _ _ => rfl
  -- the query for a node lists what the requests ask of the partitions it leads
  have hasked : ∀ nodeId topic partition timestamp,
      ListsAt (brokerTopics timestamps ((perBroker.get? nodeId).getD .empty)) topic partition
        timestamp ↔ Asked view topics nodeId topic partition timestamp := by
    intro nodeId topic partition timestamp
    rw [lists_brokerTopics]
    show partition ∈ partitionsOf perBroker nodeId topic ∧ _ ↔ _
    rw [hparts]
    constructor
    · intro hlisted
      obtain ⟨hstart | ⟨request, hrequest, rfl, hpartition, hleader⟩, htimestamp⟩ := hlisted
      · exact absurd hstart List.not_mem_nil
      · exact ⟨request, hrequest, rfl, hpartition, hleader, htimestamp.trans (htimes request hrequest)⟩
    · intro hasked
      obtain ⟨request, hrequest, rfl, hpartition, hleader, htimestamp⟩ := hasked
      exact ⟨Or.inr ⟨request, hrequest, rfl, hpartition, hleader⟩,
        htimestamp.trans (htimes request hrequest).symm⟩
  have hanswered : ∀ {nodeId answer}, (findBroker view nodeId >>= fun broker => listOffsets broker
      (brokerTopics timestamps ((perBroker.get? nodeId).getD .empty))) = .ok answer →
        Answered view listOffsets topics nodeId answer := by
    intro nodeId answer hanswer
    obtain ⟨broker, hbroker, hlist⟩ := bind_eq_ok hanswer
    exact ⟨broker, _, hbroker, hlist, hasked nodeId⟩
  refine ⟨responses, fun answer hanswer => ?_, fun nodeId topic partition timestamp hask => ?_,
    fun topic partition offset => ?_, ?_⟩
  · obtain ⟨nodeId, _, hnode⟩ := exists_item_of_mapM_ok hresponses hanswer
    exact ⟨nodeId, hanswered hnode⟩
  -- a node that is asked for something is a key, so it has an answer
  · have hkey : nodeId ∈ propertyKeys perBroker.keys := by
      rw [mem_propertyKeys]
      by_contra hnone
      have hlisted := (hasked nodeId topic partition timestamp).mpr hask
      rw [InsertionMap.get?_eq_none_iff.mpr hnone, lists_brokerTopics] at hlisted
      exact absurd hlisted.1 List.not_mem_nil
    obtain ⟨answer, hmem, hanswer⟩ := exists_result_of_mapM_ok hresponses hkey
    exact ⟨answer, hmem, hanswered hanswer⟩
  · have hresult : ListsAt merged.nameEntries topic partition offset ↔
        (partition, offset) ∈ (merged.get? topic).getD [] := by
      rw [ListsAt]
      cases hget : merged.get? topic <;>
        simp [merged.nameEntries_perm.mem_iff, InsertionMap.mem_entries_iff, hget]
    rw [hresult, foldlM_mergeTopics_ok hmerged, lists_flatten]
    exact or_iff_right List.not_mem_nil
  · exact (merged.nameEntries_perm.map Prod.fst).nodup_iff.mpr merged.nodup

/-- Every known partition that offsets are fetched for has a leader. -/
theorem fetchTopicsOffset_leader {result : TopicPartitions}
    (h : fetchTopicsOffset view listOffsets topics = .ok result) {request : TopicRequest}
    (hrequest : request ∈ topics) {partition : Int} (hpartition : partition ∈ request.partitions)
    (hknown : partitionEntry (findTopicPartitionMetadata view request.topic) partition ≠ none) :
    ∃ nodeId, leaderOf (findTopicPartitionMetadata view request.topic) partition = some nodeId := by
  obtain ⟨_, hindex, _⟩ := bind_eq_ok h
  exact foldlM_indexTopic_leader hindex hrequest hpartition hknown

/-- The offset of a single partition: its leader is asked for it. -/
theorem fetchTopicsOffset_single {topic : String} {partition nodeId offset : Int} {broker : Broker}
    {fromBeginning : Bool} (htopic : topic ∉ inheritedNames)
    (hleader : leaderOf (findTopicPartitionMetadata view topic) partition = some nodeId)
    (hbroker : findBroker view nodeId = .ok broker)
    (hlist : listOffsets broker [(topic, [(partition, defaultOffset fromBeginning)])] =
      .ok [(topic, [(partition, offset)])]) :
    fetchTopicsOffset view listOffsets [{ topic, partitions := [partition], fromBeginning }] =
      .ok [(topic, [(partition, offset)])] := by
  obtain ⟨entry, hentry, hled⟩ := Option.bind_eq_some_iff.mp hleader
  have hleaders : findLeaderForPartitions (findTopicPartitionMetadata view topic) [partition] =
      .ok (InsertionMap.empty.set nodeId [partition]) := by
    rw [findLeaderForPartitions, List.foldlM_cons, addPartition, hentry]
    dsimp only
    rw [hled]
    rfl
  have hnode : propertyKeys [nodeId] = [nodeId] := List.perm_singleton.mp (propertyKeys_perm _)
  -- each step of the code on one partition, in its order
  have hadded : addLeaders topic [partition] (InsertionMap.empty.set nodeId [partition]) [nodeId]
      InsertionMap.empty =
      InsertionMap.empty.set nodeId (InsertionMap.empty.set topic [partition]) := by
    show InsertionMap.empty.set nodeId (InsertionMap.empty.set topic (List.filter _ [partition])) = _
    rw [InsertionMap.get?_set_self, List.filter_cons_of_pos (by simp), List.filter_nil]
  have hquery : brokerTopics
      (Function.update (fun _ => latestOffset) topic (defaultOffset fromBeginning))
      (InsertionMap.empty.set topic [partition]) =
      [(topic, [(partition, defaultOffset fromBeginning)])] := by
    rw [brokerTopics, InsertionMap.nameEntries_of_entries rfl, List.map_singleton,
      Function.update_self]
    rfl
  have hmerged : [(topic, [(partition, offset)])].foldlM mergeTopics InsertionMap.empty =
      .ok (InsertionMap.empty.set topic [(partition, offset)]) := by
    rw [List.foldlM_cons, mergeTopics]
    show ((if topic ∈ inheritedNames then _ else _) >>= _) = _
    rw [if_neg htopic]
    rfl
  have hindex : [({ topic, partitions := [partition], fromBeginning } : TopicRequest)].foldlM
      (indexTopic view) (InsertionMap.empty, fun _ => latestOffset) =
      .ok (InsertionMap.empty.set nodeId (InsertionMap.empty.set topic [partition]),
        Function.update (fun _ => latestOffset) topic (defaultOffset fromBeginning)) := by
    rw [List.foldlM_cons, indexTopic, hleaders, ok_bind]
    show Except.ok (addLeaders topic [partition] _ (propertyKeys [nodeId]) InsertionMap.empty, _) = _
    rw [hnode, hadded]
    rfl
  rw [fetchTopicsOffset, hindex, ok_bind]
  show ((propertyKeys [nodeId]).mapM (fun id => findBroker view id >>= fun broker =>
    listOffsets broker (brokerTopics
      (Function.update (fun _ => latestOffset) topic (defaultOffset fromBeginning))
      (((InsertionMap.empty.set nodeId (InsertionMap.empty.set topic [partition])).get? id).getD
        .empty))) >>= _) = _
  rw [hnode, List.mapM_cons, List.mapM_nil, hbroker, ok_bind, InsertionMap.get?_set_self,
    Option.getD_some, hquery, hlist]
  show ([(topic, [(partition, offset)])].foldlM mergeTopics InsertionMap.empty >>= _) = _
  rw [hmerged]
  show Except.ok (InsertionMap.nameEntries (InsertionMap.empty.set topic [(partition, offset)])) = _
  rw [InsertionMap.nameEntries_of_entries rfl]

end KafkaJs.Cluster
