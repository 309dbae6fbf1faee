import KafkaJs.Consumer.InitialOffsets

/-!
# Uncommitted offsets

`uncommittedOffsets` compares a resolved offset with the committed one by `!==`. Resolved offsets
are decimal strings. So are the offsets that are fetched and those that `commitOffsets` takes from
here, but `consumer.commitOffsets` passes `Long` objects, and `eachBatch` what it likes.

`uncommittedOffsets_ok` says what is listed for the two maps, and `long_of_commitsByTopic` what the
consumer passes. `CommitRuns` is about the maps that runs lead to.
-/

namespace KafkaJs.Consumer

open Data Cluster

namespace OffsetManager

/-! ## What is listed -/

/-- Without a null entry the changed offsets are those of the resolved ones that differ from the
committed offset and are not negative. -/
theorem changedOffsets_ok {committed : Int → Option Offset} {entries : List (Int × Option Offset)}
    (h : ∀ entry ∈ entries, entry.2 ≠ none) :
    ∃ changed, changedOffsets committed entries = .ok changed ∧
      (changed.map Prod.fst).Sublist (entries.map Prod.fst) ∧
      ∀ partition offset, (partition, offset) ∈ changed ↔
        (partition, some offset) ∈ entries ∧ committed partition ≠ some offset ∧
          0 ≤ offset.value := by
  induction entries with
  | nil => exact ⟨[], rfl, List.Sublist.slnil, by simp⟩
  | cons entry entries ih =>
      obtain ⟨hentry, hentries⟩ := List.forall_mem_cons.mp h
      obtain ⟨changed, hchanged, hkeys, hmem⟩ := ih hentries
      obtain ⟨place, stored⟩ := entry
      obtain ⟨stored, rfl⟩ := Option.ne_none_iff_exists'.mp hentry
      by_cases hcommitted : some stored = committed place
      · refine ⟨changed, ?_, hkeys.cons _, fun partition offset => ?_⟩
        · rw [changedOffsets, if_pos hcommitted, hchanged]
        · rw [hmem, List.mem_cons, Prod.mk.injEq]
          constructor
          · exact fun h => ⟨Or.inr h.1, h.2⟩
          · intro h
            refine ⟨h.1.resolve_left fun heq => h.2.1 ?_, h.2⟩
            rw [heq.1, heq.2, hcommitted]
      · have hresult : changedOffsets committed ((place, some stored) :: entries) =
            .ok (if 0 ≤ stored.value then (place, stored) :: changed else changed) := by
          rw [changedOffsets, if_neg hcommitted]
          show (changedOffsets committed entries >>= _) = _
          rw [hchanged]
          rfl
        by_cases hvalid : 0 ≤ stored.value
        · rw [if_pos hvalid] at hresult
          refine ⟨_, hresult, hkeys.cons_cons _, fun partition offset => ?_⟩
          rw [List.mem_cons, List.mem_cons, hmem, Prod.mk.injEq, Prod.mk.injEq, Option.some_inj]
          constructor
          · intro h
            rcases h with ⟨rfl, rfl⟩ | h
            · exact ⟨Or.inl ⟨rfl, rfl⟩, Ne.symm hcommitted, hvalid⟩
            · exact ⟨Or.inr h.1, h.2⟩
          · exact fun h => h.1.imp id fun hmem => ⟨hmem, h.2⟩
        · rw [if_neg hvalid] at hresult
          refine ⟨_, hresult, hkeys.cons _, fun partition offset => ?_⟩
          rw [hmem, List.mem_cons, Prod.mk.injEq, Option.some_inj]
          constructor
          · exact fun h => ⟨Or.inr h.1, h.2⟩
          · intro h
            exact ⟨h.1.resolve_left fun heq => hvalid (heq.2 ▸ h.2.2), h.2⟩

/-- The manager lists every assigned topic once. -/
theorem topics_nodup (manager : OffsetManager) : manager.topics.Nodup :=
  ((InsertionMap.nameEntries_perm _).map Prod.fst).nodup_iff.mpr
    manager.memberAssignment.partitions.keys_nodup

/-- An assigned partition's topic is listed. -/
theorem mem_topics_of_isAssigned {manager : OffsetManager} {topic : String} {partition : Int}
    (h : manager.isAssigned topic partition = true) : topic ∈ manager.topics := by
  rw [isAssigned, decide_eq_true_eq] at h
  cases hget : manager.memberAssignment.partitions.get? topic with
  | none =>
      rw [hget] at h
      exact absurd h List.not_mem_nil
  | some partitions =>
      exact List.mem_map.mpr ⟨(topic, partitions), (InsertionMap.nameEntries_perm _).mem_iff.mpr
        (InsertionMap.mem_entries_iff.mpr hget), rfl⟩

/-- Without undefined among the resolved offsets the listing succeeds. -/
theorem uncommittedOffsets_ok {manager : OffsetManager}
    (h : ∀ topic partition, (manager.resolvedOffsets topic).get? partition ≠ some none) :
    ∃ listed, manager.uncommittedOffsets = .ok listed ∧
      ((ungrouped listed).map Prod.fst).Nodup ∧ (∀ entry ∈ listed, entry.2 ≠ []) ∧
      ∀ topic partition offset, ListsAt listed topic partition offset ↔
        topic ∈ manager.topics ∧
          (manager.resolvedOffsets topic).get? partition = some (some offset) ∧
          manager.committedOffsets (topic, partition) ≠ some offset ∧ 0 ≤ offset.value := by
  have htopic : ∀ topic, ∃ changed,
      changedOffsets (fun partition => manager.committedOffsets (topic, partition))
        (manager.resolvedOffsets topic).propertyEntries = .ok changed ∧ _ ∧ _ := fun topic =>
    changedOffsets_ok fun entry hentry hnone =>
      h topic entry.1 (InsertionMap.mem_propertyEntries.mp (hnone ▸ hentry))
  choose changed hchanged hkeys hmem using htopic
  have hlisted : manager.uncommittedOffsets =
      .ok ((manager.topics.map fun topic => (topic, changed topic)).filter
        fun entry => entry.2 ≠ []) := by
    rw [uncommittedOffsets, mapM_ok fun topic _ => by rw [hchanged topic]; rfl]
    rfl
  -- topics without changed offsets are dropped
  have hentry : ∀ entry : String × List (Int × Offset),
      entry ∈ (manager.topics.map fun topic => (topic, changed topic)).filter
          (fun entry => entry.2 ≠ []) ↔
        entry.1 ∈ manager.topics ∧ entry.2 = changed entry.1 ∧ entry.2 ≠ [] := by
    intro entry
    rw [List.mem_filter, List.mem_map, decide_eq_true_eq]
    constructor
    · intro h
      obtain ⟨⟨topic, htopic, rfl⟩, hne⟩ := h
      exact ⟨htopic, rfl, hne⟩
    · intro h
      exact ⟨⟨entry.1, h.1, Prod.ext rfl h.2.1.symm⟩, h.2.2⟩
  refine ⟨_, hlisted, nodup_ungrouped ?_ fun entry h => ?_,
    fun entry h => ((hentry entry).mp h).2.2, fun topic partition offset => ?_⟩
  · have hkeys : (manager.topics.map fun topic => (topic, changed topic)).map Prod.fst =
        manager.topics := by
      rw [List.map_map]
      exact List.map_id _
    exact (hkeys ▸ manager.topics_nodup).sublist (List.filter_sublist.map _)
  · rw [((hentry entry).mp h).2.1]
    exact (InsertionMap.nodup_propertyEntries _).sublist (hkeys entry.1)
  · rw [ListsAt, ← InsertionMap.mem_propertyEntries, ← hmem topic]
    constructor
    · intro h
      obtain ⟨group, hgroup, hoffset⟩ := h
      obtain ⟨htopic, heq, _⟩ := (hentry _).mp hgroup
      exact ⟨htopic, heq ▸ hoffset⟩
    · intro h
      obtain ⟨htopic, hoffset⟩ := h
      exact ⟨changed topic, (hentry _).mpr ⟨htopic, rfl, List.ne_nil_of_mem hoffset⟩, hoffset⟩

/-- A commit without arguments commits the uncommitted offsets, or nothing when there are none. -/
theorem commitOffsets_none {manager : OffsetManager} {outcome : Outcome}
    (h : manager.commitOffsets none = .ok outcome) :
    ∃ listed, manager.uncommittedOffsets = .ok listed ∧
      outcome = if listed = [] then .returned manager else .commits listed := by
  obtain ⟨listed, hlisted, houtcome⟩ := bind_eq_ok h
  exact ⟨listed, hlisted, (Except.ok.inj houtcome).symm⟩

/-! ## The commits of a consumer -/

/-- An argument that `consumer.commitOffsets` refuses. -/
def invalidCommit (message : String) : KafkaError :=
  { name := .kafkaJSNonRetriableError, message := message, retriable := some false }

/-- A partition with its offset is added in `consumer.commitOffsets`, as a new `Long`. -/
def addCommit (payload : InsertionMap String (List (Int × Offset)))
    (commit : (String × Int × Offset) × Nat) :
    Except KafkaError (InsertionMap String (List (Int × Offset))) :=
  let ((topic, partition, offset), object) := commit
  if topic = "" then .error (invalidCommit "Invalid topic ")
  else if offset.value < 0 then .error (invalidCommit "Offset must not be a negative number")
  else
    match payload.get? topic with
    | some topicCommits =>
        .ok (payload.set topic (topicCommits ++ [(partition, .long offset.value object)]))
    | none =>
        -- `payload[topic]` is what every object inherits under the name.
        if topic ∈ inheritedNames then
          .error { name := .typeError, message := "topicCommits.push is not a function",
                   retriable := none }
        else .ok (payload.set topic [(partition, .long offset.value object)])

/-- The offsets that `consumer.commitOffsets` passes to the runner. -/
def commitsByTopic (topicPartitions : List (String × Int × Offset)) :
    Except KafkaError OffsetTopics := do
  let payload ← topicPartitions.zipIdx.foldlM addCommit .empty
  return payload.nameEntries

/-- Adding a commit appends a Long to the list its topic had. -/
theorem addCommit_ok {payload next : InsertionMap String (List (Int × Offset))}
    {commit : (String × Int × Offset) × Nat} (h : addCommit payload commit = .ok next) :
    ∃ topicCommits, next = payload.set commit.1.1
        (topicCommits ++ [(commit.1.2.1, .long commit.1.2.2.value commit.2)]) ∧
      ∀ pair ∈ topicCommits, ∃ stored, payload.get? commit.1.1 = some stored ∧ pair ∈ stored := by
  obtain ⟨⟨topic, partition, offset⟩, object⟩ := commit
  rw [addCommit] at h
  split at h
  · cases h
  split at h
  · cases h
  split at h
  · next stored hstored =>
      cases h
      exact ⟨stored, rfl, fun pair hpair => ⟨stored, hstored, hpair⟩⟩
  split at h
  · cases h
  · cases h
    exact ⟨[], rfl, fun pair hpair => absurd hpair List.not_mem_nil⟩

/-- A payload in which all offsets are `Long` objects. -/
def OnlyLongs (payload : InsertionMap String (List (Int × Offset))) : Prop :=
  ∀ topic topicCommits, payload.get? topic = some topicCommits →
    ∀ pair ∈ topicCommits, ∃ value object, pair.2 = .long value object

/-- Adding a commit keeps a payload of Longs one. -/
theorem onlyLongs_addCommit {payload next : InsertionMap String (List (Int × Offset))}
    {commit : (String × Int × Offset) × Nat} (hlongs : OnlyLongs payload)
    (h : addCommit payload commit = .ok next) : OnlyLongs next := by
  obtain ⟨topicCommits, rfl, hcommits⟩ := addCommit_ok h
  intro topic stored hstored pair hpair
  rw [InsertionMap.get?_set] at hstored
  split at hstored
  · cases hstored
    rcases List.mem_append.mp hpair with hold | hnew
    · obtain ⟨stored, hstored, hmem⟩ := hcommits pair hold
      exact hlongs _ stored hstored pair hmem
    · rw [List.mem_singleton.mp hnew]
      exact ⟨_, _, rfl⟩
  · exact hlongs topic stored hstored pair hpair

/-- Every offset that commitOffsets is given reaches the payload as a Long. -/
theorem long_of_commitsByTopic {topicPartitions : List (String × Int × Offset)}
    {topics : OffsetTopics} (h : commitsByTopic topicPartitions = .ok topics) {topic : String}
    {partition : Int} {offset : Offset} (hlists : ListsAt topics topic partition offset) :
    ∃ value object, offset = .long value object := by
  obtain ⟨payload, hpayload, htopics⟩ := bind_eq_ok h
  cases htopics
  obtain ⟨topicCommits, htopic, hpair⟩ := hlists
  have hget := InsertionMap.mem_entries_iff.mp
    ((InsertionMap.nameEntries_perm _).mem_iff.mp htopic)
  have hempty : OnlyLongs .empty := by
    intro topic topicCommits hnone
    cases hnone
  have hlongs : OnlyLongs payload := invariant_of_foldlM_ok
    (fun _ _ _ hlongs hadded => onlyLongs_addCommit hlongs hadded) hempty hpayload
  exact hlongs topic topicCommits hget _ hpair

end OffsetManager

end KafkaJs.Consumer
