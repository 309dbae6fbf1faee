import KafkaJs.Cluster.Metadata
import KafkaJs.Data.Grouping

/-!
# Read replicas

From which node a partition is fetched. A broker may name a preferred replica for a partition; the
consumer group remembers it for a time. `findReadReplicaForPartitions` groups partitions by the node
to read them from, and `filterPartitionsByNode` asks for one node at a time, so that a partition
that is found under no node, or under a wrong one, is not fetched.

The function keeps the invariant in its comment: each partition is found once. But where it looks
whether the preferred replica is offline, it looks up the leader. `routes_iff` says when this makes
no difference.
-/

namespace KafkaJs.Consumer.ReadReplicas

open Data Cluster

/-- An entry of a topic's `partitionMetadata` with the replicas that are offline, which the older
versions of the response do not tell. -/
structure ReplicaMetadata extends PartitionMetadata where
  offlineReplicas : Option (List Int) := none

/-- Whether a node is among the offline replicas. -/
def ReplicaMetadata.Offline (metadata : ReplicaMetadata) (nodeId : Int) : Prop :=
  nodeId ∈ metadata.offlineReplicas.getD []

/-- `Offline` is decidable by looking through the replicas. -/
instance (metadata : ReplicaMetadata) (nodeId : Int) : Decidable (metadata.Offline nodeId) :=
  inferInstanceAs (Decidable (_ ∈ _))

/-- An entry of `preferredReadReplicasPerTopicPartition`. -/
structure Preference where
  nodeId : Int
  expireAt : Int
  deriving DecidableEq

/-- The preferences for the partitions of one topic. -/
abbrev Preferences := InsertionMap Int Preference

/-- `preferredReadReplicas[partitionId]`; `none` stands for a topic without preferences. -/
def preferenceOf (preferredReadReplicas : Option Preferences) (partitionId : Int) :
    Option Preference :=
  preferredReadReplicas.bind fun preferences => preferences.get? partitionId

/-- `partitionMetadata.find`. -/
def metadataOf (partitionMetadata : List ReplicaMetadata) (partitionId : Int) :
    Option ReplicaMetadata :=
  partitionMetadata.find? fun metadata => metadata.partitionId = partitionId

/-- The node picked for a partition with a leader, and the preferences that are left. An expired
preference is dropped. -/
def pickReadReplica (metadata : ReplicaMetadata) (leader now : Int)
    (preferredReadReplicas : Option Preferences) (partitionId : Int) : Int × Option Preferences :=
  match preferredReadReplicas with
  | none => (leader, none)
  | some preferences =>
      match preferences.get? partitionId with
      | none => (leader, some preferences)
      | some preference =>
          if now ≥ preference.expireAt then (leader, some (preferences.delete partitionId))
          -- the node looked up is the leader, not the preferred replica
          else if metadata.Offline leader then (leader, some preferences)
          else (preference.nodeId, some preferences)

/-- One step of the reduction in `findReadReplicaForPartitions`. -/
def addReadReplica (partitionMetadata : List ReplicaMetadata) (now : Int)
    (state : InsertionMap Int (List Int) × Option Preferences) (partitionId : Int) :
    Except KafkaError (InsertionMap Int (List Int) × Option Preferences) :=
  match metadataOf partitionMetadata partitionId with
  | none => .ok state
  | some metadata =>
      match metadata.leader with
      | none => .error invalidPartitionMetadata
      | some leader =>
          let (nodeId, preferredReadReplicas) :=
            pickReadReplica metadata leader now state.2 partitionId
          .ok (state.1.set nodeId ((state.1.get? nodeId).getD [] ++ [partitionId]),
            preferredReadReplicas)

/-- `findReadReplicaForPartitions`: the partitions by node, and the preferences that are left. -/
def findReadReplicaForPartitions (partitionMetadata : List ReplicaMetadata)
    (preferredReadReplicas : Option Preferences) (now : Int) (partitions : List Int) :
    Except KafkaError (InsertionMap Int (List Int) × Option Preferences) :=
  partitions.foldlM (addReadReplica partitionMetadata now)
    (InsertionMap.empty, preferredReadReplicas)

/-- The metadata of the topics and the preferences for their partitions, as
`findReadReplicaForPartitions` finds them. -/
abbrev TopicPreferences := String → Option Preferences

/-- `filterPartitionsByNode`. -/
def filterPartitionsByNode (partitionMetadata : String → List ReplicaMetadata) (now nodeId : Int) :
    TopicPreferences → List (String × List Int) →
      Except KafkaError (List (String × List Int) × TopicPreferences)
  | preferences, [] => .ok ([], preferences)
  | preferences, (topic, partitions) :: rest => do
      let (result, left) ← findReadReplicaForPartitions (partitionMetadata topic)
        (preferences topic) now partitions
      let (others, preferences) ← filterPartitionsByNode partitionMetadata now nodeId
        (Function.update preferences topic left) rest
      return ((topic, (result.get? nodeId).getD []) :: others, preferences)

/-- The calls for several nodes, one after the other. -/
def filterPartitionsByNodes (partitionMetadata : String → List ReplicaMetadata) (now : Int)
    (assignment : List (String × List Int)) :
    TopicPreferences → List Int → Except KafkaError (List (List (String × List Int)))
  | _, [] => .ok []
  | preferences, nodeId :: nodeIds => do
      let (list, preferences) ← filterPartitionsByNode partitionMetadata now nodeId preferences
        assignment
      return list :: (← filterPartitionsByNodes partitionMetadata now assignment preferences nodeIds)

/-! ## Where a partition belongs -/

/-- The preference of a partition has expired. -/
def Expired (preferredReadReplicas : Option Preferences) (now partitionId : Int) : Prop :=
  ∃ preference ∈ preferenceOf preferredReadReplicas partitionId, preference.expireAt ≤ now

/-- `Expired` is decidable by looking up the preference. -/
instance (preferredReadReplicas : Option Preferences) (now partitionId : Int) :
    Decidable (Expired preferredReadReplicas now partitionId) :=
  inferInstanceAs (Decidable (∃ preference ∈ preferenceOf preferredReadReplicas partitionId, _))

/-- The node that a partition is to be read from: its preferred replica if the preference has not
expired and the replica is not offline, and the leader otherwise. -/
def readReplica (partitionMetadata : List ReplicaMetadata)
    (preferredReadReplicas : Option Preferences) (now partitionId : Int) : Option Int :=
  (metadataOf partitionMetadata partitionId).bind fun metadata =>
    match preferenceOf preferredReadReplicas partitionId with
    | some preference =>
        if now < preference.expireAt ∧ ¬ metadata.Offline preference.nodeId then
          some preference.nodeId
        else metadata.leader
    | none => metadata.leader

/-- The listed partitions that have metadata are found once each, under the node that they are to be
read from, and of the preferences those of them that have expired are removed. -/
structure Routed (partitionMetadata : List ReplicaMetadata)
    (preferredReadReplicas : Option Preferences) (now : Int) (partitions : List Int)
    (result : InsertionMap Int (List Int)) (left : Option Preferences) : Prop where
  once : result.values.flatten.Perm
    (partitions.filter fun id => (metadataOf partitionMetadata id).isSome)
  under : ∀ nodeId id, id ∈ (result.get? nodeId).getD [] ↔
    id ∈ partitions ∧ readReplica partitionMetadata preferredReadReplicas now id = some nodeId
  removed : ∀ id, preferenceOf left id =
    if id ∈ partitions ∧ (metadataOf partitionMetadata id).isSome ∧
        Expired preferredReadReplicas now id then none
    else preferenceOf preferredReadReplicas id

/-- The topics and partitions of an assignment as pairs. -/
def topicPartitions (assignment : List (String × List Int)) : List (String × Int) :=
  assignment.flatMap fun entry => entry.2.map fun id => (entry.1, id)

/-- Every topic of the assignment is routed, and the lists for all nodes that its partitions are to
be read from hold each partition that has metadata once. -/
structure Routes (partitionMetadata : String → List ReplicaMetadata)
    (preferences : TopicPreferences) (now : Int) (assignment : List (String × List Int)) : Prop where
  routed : ∀ entry ∈ assignment, ∃ result left,
    findReadReplicaForPartitions (partitionMetadata entry.1) (preferences entry.1) now entry.2 =
      .ok (result, left) ∧
    Routed (partitionMetadata entry.1) (preferences entry.1) now entry.2 result left
  partitioned : ∀ nodeIds : List Int, nodeIds.Nodup →
    (∀ entry ∈ assignment, ∀ id ∈ entry.2, ∀ nodeId,
      readReplica (partitionMetadata entry.1) (preferences entry.1) now id = some nodeId →
        nodeId ∈ nodeIds) →
    ∃ lists, filterPartitionsByNodes partitionMetadata now assignment preferences nodeIds =
        .ok lists ∧
      (lists.flatMap topicPartitions).Perm ((topicPartitions assignment).filter fun pair =>
        (metadataOf (partitionMetadata pair.1) pair.2).isSome)

variable {partitionMetadata : List ReplicaMetadata} {preferredReadReplicas : Option Preferences}
  {now : Int}

/-! ## One partition -/

/-- The node under which a partition is found. -/
def foundReplica (partitionMetadata : List ReplicaMetadata)
    (preferredReadReplicas : Option Preferences) (now partitionId : Int) : Option Int :=
  (metadataOf partitionMetadata partitionId).bind fun metadata =>
    metadata.leader.map fun leader =>
      (pickReadReplica metadata leader now preferredReadReplicas partitionId).1

/-- The node that is picked for a partition. -/
theorem pickReadReplica_node (metadata : ReplicaMetadata) (leader partitionId : Int) :
    (pickReadReplica metadata leader now preferredReadReplicas partitionId).1 =
      match preferenceOf preferredReadReplicas partitionId with
      | some preference =>
          if now < preference.expireAt ∧ ¬ metadata.Offline leader then preference.nodeId
          else leader
      | none => leader := by
  cases preferredReadReplicas with
  | none => rfl
  | some preferences =>
      show _ = match preferences.get? partitionId with
        | some preference => _
        | none => leader
      rw [pickReadReplica]
      cases preferences.get? partitionId with
      | none => rfl
      | some preference =>
          dsimp only
          by_cases hexpired : now ≥ preference.expireAt
          · rw [if_pos hexpired, if_neg fun h => absurd h.1 (Int.not_lt.mpr hexpired)]
          · rw [if_neg hexpired]
            by_cases hoffline : metadata.Offline leader
            · rw [if_pos hoffline, if_neg fun h => h.2 hoffline]
            · rw [if_neg hoffline, if_pos ⟨Int.not_le.mp hexpired, hoffline⟩]

/-- The preferences that are left after a node was picked. -/
theorem pickReadReplica_left (metadata : ReplicaMetadata) (leader partitionId other : Int) :
    preferenceOf (pickReadReplica metadata leader now preferredReadReplicas partitionId).2 other =
      if other = partitionId ∧ Expired preferredReadReplicas now partitionId then none
      else preferenceOf preferredReadReplicas other := by
  cases preferredReadReplicas with
  | none => exact (ite_self _).symm
  | some preferences =>
      rw [pickReadReplica]
      cases hget : preferences.get? partitionId with
      | none =>
          rw [if_neg]
          rintro ⟨_, preference, hpreference, _⟩
          cases hget.symm.trans hpreference
      | some preference =>
          dsimp only
          by_cases hnow : now ≥ preference.expireAt
          · have hexpired : Expired (some preferences) now partitionId := ⟨preference, hget, hnow⟩
            rw [if_pos hnow]
            show (preferences.delete partitionId).get? other = _
            rw [InsertionMap.get?_delete]
            by_cases hother : other = partitionId
            · rw [if_pos hother, if_pos ⟨hother, hexpired⟩]
            · rw [if_neg hother, if_neg fun h => hother h.1]
              rfl
          · have hkeep : ¬ (other = partitionId ∧ Expired (some preferences) now partitionId) := by
              rintro ⟨_, found, hfound, hle⟩
              cases hget.symm.trans hfound
              exact hnow hle
            rw [if_neg hnow, if_neg hkeep]
            split <;> rfl

/-- The replica of a partition that has a leader. -/
theorem foundReplica_eq_some {found : ReplicaMetadata} {partitionId leader : Int}
    (hmetadata : metadataOf partitionMetadata partitionId = some found)
    (hleader : found.leader = some leader) :
    foundReplica partitionMetadata preferredReadReplicas now partitionId =
      some (pickReadReplica found leader now preferredReadReplicas partitionId).1 := by
  rw [foundReplica, hmetadata]
  show found.leader.map _ = _
  rw [hleader]
  rfl

/-- Of the preferences some that have expired are gone. -/
def Forgets (now : Int) (before after : Option Preferences) : Prop :=
  ∀ id, preferenceOf after id = preferenceOf before id ∨
    Expired before now id ∧ preferenceOf after id = none

/-- A preference that has expired makes no difference to where a partition is found. -/
theorem Forgets.foundReplica_eq {before after : Option Preferences} (h : Forgets now before after)
    (id : Int) :
    foundReplica partitionMetadata after now id = foundReplica partitionMetadata before now id := by
  unfold foundReplica
  refine congrArg _ (funext fun metadata => congrArg (Option.map · _) (funext fun leader => ?_))
  rw [pickReadReplica_node, pickReadReplica_node]
  rcases h id with hsame | ⟨⟨preference, hpreference, hle⟩, hnone⟩
  · rw [hsame]
  · rw [hnone, Option.mem_def.mp hpreference]
    exact (if_neg fun h => absurd h.1 (Int.not_lt.mpr hle)).symm

/-! ## The reduction -/

/-- What has become of the partitions of a list: under each node stand the ones that are found
there, none is lost, and of the preferences those that have expired are dropped. -/
structure Collected (partitionMetadata : List ReplicaMetadata) (now : Int)
    (start : InsertionMap Int (List Int)) (before : Option Preferences) (partitions : List Int)
    (result : InsertionMap Int (List Int)) (left : Option Preferences) : Prop where
  under : ∀ nodeId, (result.get? nodeId).getD [] = (start.get? nodeId).getD [] ++
    partitions.filter fun id => foundReplica partitionMetadata before now id = some nodeId
  once : (result.entries.flatMap Prod.snd).Perm (start.entries.flatMap Prod.snd ++
    partitions.filter fun id => (metadataOf partitionMetadata id).isSome)
  removed : ∀ id, preferenceOf left id =
    if id ∈ partitions ∧ (metadataOf partitionMetadata id).isSome ∧ Expired before now id then none
    else preferenceOf before id

/-- Collecting the partitions forgets expired preferences only. -/
theorem Collected.forgets {start result : InsertionMap Int (List Int)}
    {before left : Option Preferences} {partitions : List Int}
    (h : Collected partitionMetadata now start before partitions result left) :
    Forgets now before left := by
  intro id
  rw [h.removed]
  split
  · next hgone => exact Or.inr ⟨hgone.2.2, rfl⟩
  · exact Or.inl rfl

/-- One step. -/
theorem addReadReplica_ok {partition : Int}
    (hleader : ∀ metadata ∈ metadataOf partitionMetadata partition, metadata.leader ≠ none)
    (start : InsertionMap Int (List Int)) :
    ∃ result left,
      addReadReplica partitionMetadata now (start, preferredReadReplicas) partition =
        .ok (result, left) ∧
      Collected partitionMetadata now start preferredReadReplicas [partition] result left := by
  cases hmetadata : metadataOf partitionMetadata partition with
  | none =>
      have hfound : foundReplica partitionMetadata preferredReadReplicas now partition = none := by
        rw [foundReplica, hmetadata]
        rfl
      refine ⟨start, preferredReadReplicas, by rw [addReadReplica, hmetadata],
        { under := fun nodeId => by simp [hfound]
          once := by simp [hmetadata]
          removed := fun id => ?_ }⟩
      rw [if_neg]
      rintro ⟨hid, hsome, _⟩
      rw [List.mem_singleton.mp hid, hmetadata] at hsome
      cases hsome
  | some metadata =>
      obtain ⟨leader, hsome⟩ := Option.ne_none_iff_exists'.mp (hleader metadata hmetadata)
      have hfound := @foundReplica_eq_some _ preferredReadReplicas now _ _ _ hmetadata hsome
      refine ⟨_, _, by rw [addReadReplica, hmetadata]; dsimp only; rw [hsome],
        { under := fun nodeId => ?_, once := ?_, removed := fun id => ?_ }⟩
      · rw [InsertionMap.get?_set]
        by_cases hnode : nodeId =
            (pickReadReplica metadata leader now preferredReadReplicas partition).1
        · simp [hnode, hfound]
        · simp [hnode, hfound, Ne.symm hnode]
      · rw [List.filter_cons_of_pos (by simp [hmetadata]), List.filter_nil]
        refine InsertionMap.flatMap_set_perm ?_
        cases start.get? (pickReadReplica metadata leader now preferredReadReplicas partition).1
          <;> simp
      · rw [pickReadReplica_left]
        by_cases hid : id = partition
        · subst hid
          simp [hmetadata]
        · rw [if_neg fun h => hid h.1, if_neg fun h => hid (List.mem_singleton.mp h.1)]

/-- The whole reduction. -/
theorem findReadReplicaForPartitions_ok {partitions : List Int}
    (hleaders : ∀ id ∈ partitions, ∀ metadata ∈ metadataOf partitionMetadata id,
      metadata.leader ≠ none) :
    ∃ result left, findReadReplicaForPartitions partitionMetadata preferredReadReplicas now
        partitions = .ok (result, left) ∧
      Collected partitionMetadata now .empty preferredReadReplicas partitions result left := by
  unfold findReadReplicaForPartitions
  generalize InsertionMap.empty = start
  induction partitions generalizing start preferredReadReplicas with
  | nil =>
      refine ⟨start, preferredReadReplicas, rfl,
        { under := fun nodeId => by simp
          once := by simp
          removed := fun id => ?_ }⟩
      rw [if_neg fun h => List.not_mem_nil h.1]
  | cons partition partitions ih =>
      obtain ⟨middle, between, hstep, hfirst⟩ :=
        @addReadReplica_ok partitionMetadata preferredReadReplicas now partition
          (hleaders partition List.mem_cons_self) start
      obtain ⟨result, left, hfold, hrest⟩ := @ih between
        (fun id hid => hleaders id (List.mem_cons_of_mem partition hid)) middle
      refine ⟨result, left, by rw [List.foldlM_cons, hstep]; exact hfold,
        { under := fun nodeId => ?_, once := ?_, removed := fun id => ?_ }⟩
      · have hsame := @Forgets.foundReplica_eq partitionMetadata now _ _ hfirst.forgets
        rw [hrest.under, hfirst.under, List.append_assoc, ← @List.singleton_append _ partition partitions,
          List.filter_append]
        simp only [hsame]
      · refine hrest.once.trans ((hfirst.once.append_right _).trans ?_)
        rw [List.append_assoc, ← List.filter_append, List.singleton_append]
      · have hsame := hfirst.removed id
        rw [hrest.removed, hsame]
        by_cases hgone : id ∈ [partition] ∧ (metadataOf partitionMetadata id).isSome ∧
            Expired preferredReadReplicas now id
        · have hmem : id ∈ partition :: partitions :=
            List.mem_cons.mpr (Or.inl (List.mem_singleton.mp hgone.1))
          rw [if_pos hgone, ite_self, if_pos ⟨hmem, hgone.2⟩]
        · rw [if_neg hgone] at hsame ⊢
          -- a preference that this partition does not forget is as expired as before
          have hexpired : Expired between now id ↔ Expired preferredReadReplicas now id := by
            rw [Expired, Expired, hsame]
          by_cases hlater : id ∈ partitions ∧ (metadataOf partitionMetadata id).isSome ∧
              Expired preferredReadReplicas now id
          · rw [if_pos ⟨hlater.1, hlater.2.1, hexpired.mpr hlater.2.2⟩,
              if_pos ⟨List.mem_cons_of_mem partition hlater.1, hlater.2⟩]
          · rw [if_neg fun h => hlater ⟨h.1, h.2.1, hexpired.mp h.2.2⟩, if_neg]
            rintro ⟨hmem, hrest⟩
            rcases List.mem_cons.mp hmem with hfirst | hmem
            · exact hgone ⟨List.mem_singleton.mpr hfirst, hrest⟩
            · exact hlater ⟨hmem, hrest⟩

/-! ## All nodes -/

/-- Nothing is forgotten. -/
theorem Forgets.refl (preferences : Option Preferences) : Forgets now preferences preferences :=
  fun _ => Or.inl rfl

/-- Forgetting twice. -/
theorem Forgets.trans {before between after : Option Preferences}
    (hfirst : Forgets now before between) (hsecond : Forgets now between after) :
    Forgets now before after := by
  intro id
  rcases hsecond id with hsame | ⟨⟨preference, hpreference, hle⟩, hnone⟩
  · rw [hsame]
    exact hfirst id
  · rcases hfirst id with hsame | ⟨hexpired, _⟩
    · exact Or.inr ⟨⟨preference, hsame ▸ hpreference, hle⟩, hnone⟩
    · exact Or.inr ⟨hexpired, hnone⟩

variable {metadata : String → List ReplicaMetadata} {preferences : TopicPreferences}
  {assignment : List (String × List Int)}

/-- Every partition of the assignment that has metadata has a leader. -/
def HaveLeaders (metadata : String → List ReplicaMetadata)
    (assignment : List (String × List Int)) : Prop :=
  ∀ entry ∈ assignment, ∀ id ∈ entry.2, ∀ found ∈ metadataOf (metadata entry.1) id,
    found.leader ≠ none

/-- The call for one node: the partitions that are found under it. -/
theorem filterPartitionsByNode_ok (hleaders : HaveLeaders metadata assignment) (nodeId : Int) :
    ∃ left, filterPartitionsByNode metadata now nodeId preferences assignment =
        .ok (assignment.map fun entry => (entry.1, entry.2.filter fun id =>
          foundReplica (metadata entry.1) (preferences entry.1) now id = some nodeId), left) ∧
      ∀ topic, Forgets now (preferences topic) (left topic) := by
  induction assignment generalizing preferences with
  | nil => exact ⟨preferences, rfl, fun topic => Forgets.refl _⟩
  | cons entry assignment ih =>
      obtain ⟨topic, partitions⟩ := entry
      obtain ⟨result, updated, hfind, hcollected⟩ := @findReadReplicaForPartitions_ok
        (metadata topic) (preferences topic) now partitions
          (hleaders (topic, partitions) List.mem_cons_self)
      have hupdate : ∀ other, Forgets now (preferences other)
          (Function.update preferences topic updated other) := by
        intro other
        by_cases hother : other = topic
        · rw [hother, Function.update_self]
          exact hcollected.forgets
        · rw [Function.update_of_ne hother]
          exact Forgets.refl _
      obtain ⟨left, hrest, hforgets⟩ := @ih (Function.update preferences topic updated)
        fun other hother => hleaders other (List.mem_cons_of_mem _ hother)
      refine ⟨left, ?_, fun other => (hupdate other).trans (hforgets other)⟩
      have hunder := hcollected.under nodeId
      rw [InsertionMap.get?_empty, Option.getD_none, List.nil_append] at hunder
      rw [filterPartitionsByNode, hfind]
      show (filterPartitionsByNode metadata now nodeId (Function.update preferences topic updated)
        assignment >>= fun others => _) = _
      rw [hrest]
      show Except.ok ((topic, (result.get? nodeId).getD []) :: _, left) = _
      rw [hunder, List.map_cons]
      refine congrArg (fun others => Except.ok (_ :: others, left)) (List.map_congr_left ?_)
      intro other _
      simp only [(hupdate other.1).foundReplica_eq]

/-- The calls for several nodes do not disturb each other. -/
theorem filterPartitionsByNodes_ok (hleaders : HaveLeaders metadata assignment)
    (nodeIds : List Int) :
    filterPartitionsByNodes metadata now assignment preferences nodeIds =
      .ok (nodeIds.map fun nodeId => assignment.map fun entry => (entry.1, entry.2.filter fun id =>
        foundReplica (metadata entry.1) (preferences entry.1) now id = some nodeId)) := by
  induction nodeIds generalizing preferences with
  | nil => rfl
  | cons nodeId nodeIds ih =>
      obtain ⟨left, hfilter, hforgets⟩ := @filterPartitionsByNode_ok now metadata preferences
        assignment hleaders nodeId
      rw [filterPartitionsByNodes, hfilter]
      show (filterPartitionsByNodes metadata now assignment left nodeIds >>= fun lists => _) = _
      rw [ih]
      show Except.ok (_ :: _) = _
      rw [List.map_cons]
      refine congrArg (fun lists => Except.ok (_ :: lists)) (List.map_congr_left ?_)
      intro other _
      refine List.map_congr_left fun entry _ => ?_
      simp only [(hforgets entry.1).foundReplica_eq]

/-- The partitions of an assignment. -/
theorem mem_topicPartitions {pair : String × Int} :
    pair ∈ topicPartitions assignment ↔ ∃ entry ∈ assignment, entry.1 = pair.1 ∧
      pair.2 ∈ entry.2 := by
  simp only [topicPartitions, List.mem_flatMap, List.mem_map]
  constructor
  · rintro ⟨entry, hentry, id, hid, rfl⟩
    exact ⟨entry, hentry, rfl, hid⟩
  · rintro ⟨entry, hentry, htopic, hid⟩
    exact ⟨entry, hentry, pair.2, hid, Prod.ext htopic rfl⟩

/-- The partitions of an assignment that is filtered. -/
theorem topicPartitions_filter (accepts : String → Int → Bool) :
    topicPartitions (assignment.map fun entry => (entry.1, entry.2.filter (accepts entry.1))) =
      (topicPartitions assignment).filter fun pair => accepts pair.1 pair.2 := by
  simp only [topicPartitions, List.flatMap_map, List.filter_flatMap, List.filter_map]
  rfl

/-- The lists for distinct nodes, among them all where something is found, hold each partition that
has metadata once. -/
theorem filterPartitionsByNodes_perm (hleaders : HaveLeaders metadata assignment)
    {nodeIds : List Int} (hnodup : nodeIds.Nodup)
    (hall : ∀ entry ∈ assignment, ∀ id ∈ entry.2, ∀ nodeId,
      foundReplica (metadata entry.1) (preferences entry.1) now id = some nodeId →
        nodeId ∈ nodeIds) :
    ∃ lists, filterPartitionsByNodes metadata now assignment preferences nodeIds = .ok lists ∧
      (lists.flatMap topicPartitions).Perm ((topicPartitions assignment).filter fun pair =>
        (metadataOf (metadata pair.1) pair.2).isSome) := by
  refine ⟨_, filterPartitionsByNodes_ok hleaders nodeIds, ?_⟩
  have hgroups := flatMap_filter_perm
    (fun pair : String × Int => foundReplica (metadata pair.1) (preferences pair.1) now pair.2)
    (topicPartitions assignment) (hnodup.map (Option.some_injective Int))
  rw [List.flatMap_map] at hgroups ⊢
  have hlists : (fun nodeId => topicPartitions (assignment.map fun entry => (entry.1,
      entry.2.filter fun id => foundReplica (metadata entry.1) (preferences entry.1) now id =
        some nodeId))) = fun nodeId => (topicPartitions assignment).filter fun pair =>
          foundReplica (metadata pair.1) (preferences pair.1) now pair.2 = some nodeId :=
    funext fun nodeId => topicPartitions_filter fun topic id =>
      foundReplica (metadata topic) (preferences topic) now id = some nodeId
  rw [hlists]
  refine hgroups.trans (List.Perm.of_eq (List.filter_congr fun pair hpair => ?_))
  obtain ⟨entry, hentry, htopic, hid⟩ := mem_topicPartitions.mp hpair
  have hleader := hleaders entry hentry pair.2 hid
  have hnode := hall entry hentry pair.2 hid
  rw [htopic] at hleader hnode
  cases hmetadata : metadataOf (metadata pair.1) pair.2 with
  | none => simp [foundReplica, hmetadata]
  | some found =>
      obtain ⟨leader, hsome⟩ := Option.ne_none_iff_exists'.mp (hleader found hmetadata)
      have hfound := @foundReplica_eq_some _ (preferences pair.1) now _ _ _ hmetadata hsome
      simp [hfound, hnode _ hfound]

/-! ## Where a partition is found and where it belongs -/

/-- The preferred replica of a partition, while it has not expired, is its leader, or it is offline
where the leader is and only there. -/
def LooksAlike (partitionMetadata : List ReplicaMetadata)
    (preferredReadReplicas : Option Preferences) (now partitionId : Int) : Prop :=
  ∀ metadata ∈ metadataOf partitionMetadata partitionId, ∀ leader ∈ metadata.leader,
    ∀ preference ∈ preferenceOf preferredReadReplicas partitionId, now < preference.expireAt →
      preference.nodeId = leader ∨ (metadata.Offline preference.nodeId ↔ metadata.Offline leader)

/-- The code picks the replica of the specification exactly if the preference looks alike. -/
theorem foundReplica_eq_readReplica_iff {partitionId : Int}
    (hleader : ∀ metadata ∈ metadataOf partitionMetadata partitionId, metadata.leader ≠ none) :
    foundReplica partitionMetadata preferredReadReplicas now partitionId =
        readReplica partitionMetadata preferredReadReplicas now partitionId ↔
      LooksAlike partitionMetadata preferredReadReplicas now partitionId := by
  cases hmetadata : metadataOf partitionMetadata partitionId with
  | none => simp [foundReplica, readReplica, LooksAlike, hmetadata]
  | some metadata =>
      obtain ⟨leader, hsome⟩ := Option.ne_none_iff_exists'.mp (hleader metadata hmetadata)
      rw [foundReplica_eq_some hmetadata hsome, pickReadReplica_node]
      cases hpreference : preferenceOf preferredReadReplicas partitionId with
      | none => simp [readReplica, LooksAlike, hmetadata, hpreference, hsome]
      | some preference =>
          by_cases hnow : now < preference.expireAt
          · by_cases hleaderOffline : metadata.Offline leader <;>
              by_cases hoffline : metadata.Offline preference.nodeId <;>
              simp [readReplica, LooksAlike, hmetadata, hpreference, hsome, hnow, hleaderOffline,
                hoffline, eq_comm]
          · simp [readReplica, LooksAlike, hmetadata, hpreference, hsome, hnow]

/-- Where the picks agree, the partitions are routed. -/
theorem Collected.routed {partitions : List Int} {result : InsertionMap Int (List Int)}
    {left : Option Preferences}
    (h : Collected partitionMetadata now .empty preferredReadReplicas partitions result left)
    (halike : ∀ id ∈ partitions, foundReplica partitionMetadata preferredReadReplicas now id =
      readReplica partitionMetadata preferredReadReplicas now id) :
    Routed partitionMetadata preferredReadReplicas now partitions result left where
  once := by
    rw [InsertionMap.values, ← List.flatMap_def]
    exact h.once
  under nodeId id := by
    rw [h.under, InsertionMap.get?_empty, Option.getD_none, List.nil_append, List.mem_filter,
      decide_eq_true_eq]
    exact and_congr_right fun hid => by rw [halike id hid]
  removed := h.removed

/-- Fetches are routed as they are to be exactly if, for every assigned partition with a preference
that has not expired, the preferred replica is the leader or is offline where the leader is and only
there. -/
theorem routes_iff (hleaders : HaveLeaders metadata assignment) :
    Routes metadata preferences now assignment ↔
      ∀ entry ∈ assignment, ∀ id ∈ entry.2,
        LooksAlike (metadata entry.1) (preferences entry.1) now id := by
  have halike : (∀ entry ∈ assignment, ∀ id ∈ entry.2,
      LooksAlike (metadata entry.1) (preferences entry.1) now id) ↔
      ∀ entry ∈ assignment, ∀ id ∈ entry.2,
        foundReplica (metadata entry.1) (preferences entry.1) now id =
          readReplica (metadata entry.1) (preferences entry.1) now id :=
    forall₂_congr fun entry hentry => forall₂_congr fun id hid =>
      (foundReplica_eq_readReplica_iff (hleaders entry hentry id hid)).symm
  rw [halike]
  constructor
  · intro h entry hentry id hid
    obtain ⟨result, left, hfind, hcollected⟩ := @findReadReplicaForPartitions_ok
      (metadata entry.1) (preferences entry.1) now entry.2 (hleaders entry hentry)
    obtain ⟨other, remaining, hother, hrouted⟩ := h.routed entry hentry
    cases hfind.symm.trans hother
    have hunder : ∀ nodeId,
        foundReplica (metadata entry.1) (preferences entry.1) now id = some nodeId ↔
          readReplica (metadata entry.1) (preferences entry.1) now id = some nodeId := by
      intro nodeId
      have hnode := hrouted.under nodeId id
      rw [hcollected.under, InsertionMap.get?_empty, Option.getD_none, List.nil_append,
        List.mem_filter, decide_eq_true_eq] at hnode
      simpa [hid] using hnode
    exact Option.ext hunder
  · intro h
    refine ⟨fun entry hentry => ?_, fun nodeIds hnodup hall => ?_⟩
    · obtain ⟨result, left, hfind, hcollected⟩ := @findReadReplicaForPartitions_ok
        (metadata entry.1) (preferences entry.1) now entry.2 (hleaders entry hentry)
      exact ⟨result, left, hfind, hcollected.routed (h entry hentry)⟩
    · refine filterPartitionsByNodes_perm hleaders hnodup fun entry hentry id hid nodeId hfound => ?_
      exact hall entry hentry id hid nodeId (by rw [← h entry hentry id hid]; exact hfound)

/-- The metadata of the samples: partition 0 with the leader 1, where the replica 2 is offline. -/
def sampleMetadata (_ : String) : List ReplicaMetadata :=
  [{ partitionId := 0, leader := some 1, offlineReplicas := some [2] }]

/-- A preference for a replica that has not expired. -/
def samplePreferences (nodeId : Int) (_ : String) : Option Preferences :=
  some (InsertionMap.empty.set 0 ⟨nodeId, 100⟩)

/-- The partition of the sample has a leader. -/
theorem sample_haveLeaders : HaveLeaders sampleMetadata [("t", [0])] := by
  unfold HaveLeaders
  decide

/-- A preference for an online replica is followed. -/
theorem routes_sample : Routes sampleMetadata (samplePreferences 3) 50 [("t", [0])] :=
  (routes_iff sample_haveLeaders).mpr (by
    intro entry hentry id hid
    cases List.mem_singleton.mp hentry
    cases List.mem_singleton.mp hid
    unfold LooksAlike
    decide)

/-- A partition is found under its preferred replica although that is offline. -/
theorem not_routes_offline :
    ¬ Routes sampleMetadata (samplePreferences 2) 50 [("t", [0])] ∧
      (filterPartitionsByNodes sampleMetadata 50 [("t", [0])] (samplePreferences 2) [1, 2]).toOption =
        some [[("t", [])], [("t", [0])]] := by
  refine ⟨fun h => ?_, by decide⟩
  obtain ⟨result, left, hfind, hrouted⟩ := h.routed ("t", [0]) (List.mem_singleton_self _)
  have hresult : findReadReplicaForPartitions (sampleMetadata "t") (samplePreferences 2 "t") 50
      [0] = .ok (InsertionMap.empty.set 2 [0], samplePreferences 2 "t") := rfl
  cases hresult.symm.trans hfind
  have hbelongs := ((hrouted.under 2 0).mp (by decide)).2
  revert hbelongs
  decide

end KafkaJs.Consumer.ReadReplicas
