import KafkaJs.Consumer.InitialOffsets

/-!
# Seeking with and without auto-commit

With auto-commit `seek` commits the offset, and the position of the partition is what the
coordinator returns for it afterwards. Without, it stores the offset as resolved. The special
offsets for the latest and the earliest message go through both as negative numbers: the coordinator
returns them as an offset that is not there, for which the default of the topic is taken, and the
resolved offset is invalid, for which zero is taken.

`seeksAlike_iff` says when a seek leads to the offset that was asked for in both modes.
-/

namespace KafkaJs.Consumer

open Data Cluster

namespace OffsetManager

/-- The earliest and the latest offsets of the partitions. -/
structure Bounds where
  earliest : String → Int → Int
  latest : String → Int → Int
  earliest_nonneg : ∀ topic partition, 0 ≤ earliest topic partition
  latest_nonneg : ∀ topic partition, 0 ≤ latest topic partition

/-- The offset that is taken for a partition without one. -/
def Bounds.default (bounds : Bounds) (fromBeginning : Bool) : String → Int → Int :=
  if fromBeginning then bounds.earliest else bounds.latest

/-- The committed offsets of a group after an OffsetCommit request. -/
def committedBy (group : String → Int → Int) (topics : OffsetTopics) (topic : String)
    (partition : Int) : Int :=
  assigned (fun place => group place.1 place.2)
    ((ungrouped topics).map fun entry => (entry.1, entry.2.value)) (topic, partition)

/-- The coordinator returns what was last committed. -/
def FetchesCommitted (offsetFetch : (String → Int → Int) → OffsetFetch) : Prop :=
  ∀ group request answer, (request.map Prod.fst).Nodup → offsetFetch group request = .ok answer →
    AnswersFetch request answer ∧
      ∀ topic partition offset, ListsAt answer topic partition offset →
        offset = group topic partition

/-- The brokers list the earliest and the latest offsets. -/
def ListsBounds (listOffsets : ListOffsets) (bounds : Bounds) : Prop :=
  ∀ broker query answer, listOffsets broker query = .ok answer →
    AnswersList query answer ∧
      ∀ topic partition fromBeginning offset,
        (∀ asked, ListsAt query topic partition asked ↔ asked = defaultOffset fromBeginning) →
        ListsAt answer topic partition offset →
          offset = bounds.default fromBeginning topic partition

/-- `seek`, once its commit is answered, and then `resolveOffsets`. -/
def seekAndResolve (manager : OffsetManager) (view : ClusterView) (listOffsets : ListOffsets)
    (offsetFetch : (String → Int → Int) → OffsetFetch) (group : String → Int → Int)
    (topic : String) (partition offset : Int) : Except KafkaError OffsetManager :=
  match manager.seek topic partition offset with
  | .returned next => next.resolveOffsets view listOffsets (offsetFetch group)
  | .commits topics => (manager.clearOffsets topic partition).resolveOffsets view listOffsets
      (offsetFetch (committedBy group topics))

/-- The offset manager in one of the modes. -/
def withAutoCommit (manager : OffsetManager) (autoCommit : Bool) : OffsetManager :=
  { manager with autoCommit := autoCommit }

/-- The offset that a seek asks for. -/
def soughtOffset (bounds : Bounds) (topic : String) (partition offset : Int) : Int :=
  if offset = latestOffset then bounds.latest topic partition
  else if offset = earliestOffset then bounds.earliest topic partition
  else offset

/-- In both modes the partition goes on with the offset asked for. All other partitions keep their
resolved offsets and their valid committed offsets, and those that had none have the same in both
modes. -/
structure SeeksAlike (manager auto manual : OffsetManager) (bounds : Bounds) (topic : String)
    (partition offset : Int) : Prop where
  autoNext : (auto.nextOffset topic partition).2 = soughtOffset bounds topic partition offset
  manualNext : (manual.nextOffset topic partition).2 = soughtOffset bounds topic partition offset
  resolved : ∀ other id, (other, id) ≠ (topic, partition) →
    (auto.resolvedOffsets other).get? id = (manager.resolvedOffsets other).get? id ∧
      (manual.resolvedOffsets other).get? id = (manager.resolvedOffsets other).get? id
  committed : ∀ other id, (other, id) ≠ (topic, partition) →
    auto.committedOffsets (other, id) = manual.committedOffsets (other, id) ∧
      (isInvalidOffset (manager.committedOffsets (other, id)) = false →
        auto.committedOffsets (other, id) = manager.committedOffsets (other, id))

/-! ## After resolveOffsets -/

/-- The committed offset of a partition after `resolveOffsets`. -/
def settled (manager : OffsetManager) (view : ClusterView) (bounds : Bounds)
    (group : String → Int → Int) (topic : String) (partition : Int) : Option Offset :=
  if manager.isAssigned topic partition = true ∧
      isInvalidOffset (manager.committedOffsets (topic, partition)) = true then
    if 0 ≤ group topic partition then some (.ofInt (group topic partition))
    else if partitionEntry (findTopicPartitionMetadata view topic) partition = none then none
    else some (.ofInt (bounds.default ((manager.topicConfigurations topic).getD false) topic
      partition))
  else manager.committedOffsets (topic, partition)

variable {manager next auto manual : OffsetManager} {view : ClusterView}
  {listOffsets : ListOffsets} {offsetFetch : (String → Int → Int) → OffsetFetch} {bounds : Bounds}
  {group : String → Int → Int} {topic : String} {partition offset : Int}

/-- What a manager has after its offsets were resolved. -/
theorem committedOffsets_resolveOffsets (hfetch : FetchesCommitted offsetFetch)
    (hlist : ListsBounds listOffsets bounds)
    (h : manager.resolveOffsets view listOffsets (offsetFetch group) = .ok next) :
    next.resolvedOffsets = manager.resolvedOffsets ∧
      ∀ topic partition, next.committedOffsets (topic, partition) =
        manager.settled view bounds group topic partition := by
  have hanswers := fun answer hanswer =>
    hfetch group manager.pendingPartitions answer manager.pendingPartitions_nodup hanswer
  obtain ⟨hsame, hcommitted⟩ := resolveOffsets_ok (fun answer hanswer => (hanswers answer hanswer).1)
    (fun broker query answer hanswer => (hlist broker query answer hanswer).1) h
  refine ⟨by rw [hsame], fun topic partition => ?_⟩
  rcases hcommitted topic partition with
    ⟨hset, hkept⟩ | ⟨answer, offset, stored, hanswer, hunset, hgroup, hnext, hvalid, hnegative⟩
  · rw [settled, if_neg hset]
    exact hkept
  · have hoffset := (hanswers answer hanswer).2 topic partition offset hgroup
    subst hoffset
    rw [settled, if_pos hunset, hnext]
    by_cases hle : 0 ≤ group topic partition
    · rw [if_pos hle, hvalid hle]
      rfl
    · rw [if_neg hle]
      obtain ⟨hknown, hlisted⟩ := hnegative (Int.not_le.mp hle)
      by_cases hentry : partitionEntry (findTopicPartitionMetadata view topic) partition = none
      · rw [if_pos hentry]
        cases stored with
        | none => rfl
        | some listed =>
            obtain ⟨leader, _, _, _, hleader, _⟩ := hlisted listed rfl
            rw [leaderOf, hentry] at hleader
            cases hleader
      · rw [if_neg hentry]
        obtain ⟨listed, hstored⟩ := Option.ne_none_iff_exists'.mp (hknown hentry)
        obtain ⟨_, broker, query, answer, _, _, hanswer, hquery, hlists⟩ := hlisted listed hstored
        rw [hstored, (hlist broker query answer hanswer).2 _ _ _ _ hquery hlists]
        rfl

/-! ## The sought partition -/

/-- The offsets of the group after one of them was committed. -/
theorem committedBy_single (value : Offset) (other : String) (id : Int) :
    committedBy group [(topic, [(partition, value)])] other id =
      if (other, id) = (topic, partition) then value.value else group other id := by
  show Function.update (fun place : String × Int => group place.1 place.2) (topic, partition)
    value.value (other, id) = _
  rw [Function.update_apply]

/-- A default offset is not negative. -/
theorem default_nonneg (bounds : Bounds) (fromBeginning : Bool) (topic : String) (partition : Int) :
    0 ≤ bounds.default fromBeginning topic partition := by
  cases fromBeginning with
  | false => exact bounds.latest_nonneg topic partition
  | true => exact bounds.earliest_nonneg topic partition

/-- With auto-commit the committed offset is fetched again. -/
theorem auto_nextOffset (hfetch : FetchesCommitted offsetFetch)
    (hlist : ListsBounds listOffsets bounds)
    (hassigned : manager.isAssigned topic partition = true)
    (hknown : partitionEntry (findTopicPartitionMetadata view topic) partition ≠ none)
    (h : ((manager.withAutoCommit true).clearOffsets topic partition).resolveOffsets view listOffsets
      (offsetFetch (committedBy group [(topic, [(partition, .ofInt offset)])])) = .ok auto) :
    (auto.nextOffset topic partition).2 =
      if 0 ≤ offset then offset
      else bounds.default ((manager.topicConfigurations topic).getD false) topic partition := by
  obtain ⟨hresolved, hcommitted⟩ := committedOffsets_resolveOffsets hfetch hlist h
  have hnone : auto.resolvedOffset topic partition = none := by
    rw [resolvedOffset, hresolved, get?_clearOffsets, if_pos rfl]
    rfl
  have hpending : ((manager.withAutoCommit true).clearOffsets topic partition).isAssigned topic
      partition = true ∧ isInvalidOffset (((manager.withAutoCommit true).clearOffsets topic
        partition).committedOffsets (topic, partition)) = true := by
    rw [committedOffsets_clearOffsets, if_pos rfl]
    exact ⟨hassigned, rfl⟩
  have hsettled := hcommitted topic partition
  rw [settled, if_pos hpending, committedBy_single, if_pos rfl, if_neg hknown,
    Offset.value_ofInt] at hsettled
  rw [nextOffset_snd, hnone, if_pos (show isFalsy none = true from rfl), hsettled]
  by_cases hle : 0 ≤ offset
  · rw [if_pos hle, if_pos hle, position_ofInt, if_neg (Int.not_lt.mpr hle)]
  · rw [if_neg hle, if_neg hle, position_ofInt]
    exact if_neg (Int.not_lt.mpr (default_nonneg _ _ _ _))

/-- Without, the resolved offset stays what it was set to. -/
theorem manual_nextOffset (hfetch : FetchesCommitted offsetFetch)
    (hlist : ListsBounds listOffsets bounds)
    (h : ((manager.withAutoCommit false).resolveOffset topic partition (offset - 1)).resolveOffsets
      view listOffsets (offsetFetch group) = .ok manual) :
    (manual.nextOffset topic partition).2 = if offset < 0 then 0 else offset := by
  obtain ⟨hresolved, _⟩ := committedOffsets_resolveOffsets hfetch hlist h
  have hstored : manual.resolvedOffset topic partition = some (.ofInt offset) := by
    rw [resolvedOffset, hresolved, resolveOffset, get?_setResolved, if_pos rfl, Int.sub_add_cancel]
    rfl
  rw [nextOffset_snd, hstored, if_neg (show ¬ isFalsy (some (.ofInt offset)) = true from Bool.false_ne_true),
    position_ofInt]

/-- With auto-commit a seek is a commit. -/
theorem seek_auto (hassigned : manager.isAssigned topic partition = true) :
    (manager.withAutoCommit true).seek topic partition offset =
      .commits [(topic, [(partition, .ofInt offset)])] := by
  have hkept : (manager.withAutoCommit true).isAssigned topic partition = true := hassigned
  rw [seek, if_neg (by rw [hkept]; exact nofun)]
  rfl

/-- Without auto-commit a seek resolves the offset before. -/
theorem seek_manual (hassigned : manager.isAssigned topic partition = true) :
    (manager.withAutoCommit false).seek topic partition offset =
      .returned ((manager.withAutoCommit false).resolveOffset topic partition (offset - 1)) := by
  have hkept : (manager.withAutoCommit false).isAssigned topic partition = true := hassigned
  rw [seek, if_neg (by rw [hkept]; exact nofun)]
  rfl

/-! ## The other partitions -/

/-- Both ways leave the resolved offsets of other partitions the same. -/
theorem resolved_of_ne {other : String} {id : Int} (hne : (other, id) ≠ (topic, partition))
    (hfetch : FetchesCommitted offsetFetch) (hlist : ListsBounds listOffsets bounds)
    {topics : OffsetTopics}
    (hauto : ((manager.withAutoCommit true).clearOffsets topic partition).resolveOffsets view
      listOffsets (offsetFetch (committedBy group topics)) = .ok auto)
    (hmanual : ((manager.withAutoCommit false).resolveOffset topic partition
      (offset - 1)).resolveOffsets view listOffsets (offsetFetch group) = .ok manual) :
    (auto.resolvedOffsets other).get? id = (manager.resolvedOffsets other).get? id ∧
      (manual.resolvedOffsets other).get? id = (manager.resolvedOffsets other).get? id := by
  rw [(committedOffsets_resolveOffsets hfetch hlist hauto).1, get?_clearOffsets, if_neg hne,
    (committedOffsets_resolveOffsets hfetch hlist hmanual).1, resolveOffset, get?_setResolved,
    if_neg hne]
  exact ⟨rfl, rfl⟩

/-- Both ways leave the committed offsets of other partitions the same. -/
theorem committed_of_ne {other : String} {id : Int} (hne : (other, id) ≠ (topic, partition))
    (hfetch : FetchesCommitted offsetFetch) (hlist : ListsBounds listOffsets bounds) {value : Offset}
    (hauto : ((manager.withAutoCommit true).clearOffsets topic partition).resolveOffsets view
      listOffsets (offsetFetch (committedBy group [(topic, [(partition, value)])])) = .ok auto)
    (hmanual : ((manager.withAutoCommit false).resolveOffset topic partition
      (offset - 1)).resolveOffsets view listOffsets (offsetFetch group) = .ok manual) :
    auto.committedOffsets (other, id) = manual.committedOffsets (other, id) ∧
      (isInvalidOffset (manager.committedOffsets (other, id)) = false →
        auto.committedOffsets (other, id) = manager.committedOffsets (other, id)) := by
  have hcommitted : ((manager.withAutoCommit true).clearOffsets topic partition).committedOffsets
      (other, id) = manager.committedOffsets (other, id) := by
    rw [committedOffsets_clearOffsets, if_neg hne]
    rfl
  rw [(committedOffsets_resolveOffsets hfetch hlist hauto).2,
    (committedOffsets_resolveOffsets hfetch hlist hmanual).2, settled, settled, hcommitted,
    committedBy_single, if_neg hne]
  refine ⟨rfl, fun hvalid => if_neg fun hpending => ?_⟩
  rw [hvalid] at hpending
  cases hpending.2

/-! ## Both modes -/

/-- A seek to an offset leads there in both modes. A seek to the latest or the earliest offset does
exactly if that offset is zero, where the local mode goes, and so is the default of the topic, where
the coordinator leads. -/
theorem seeksAlike_iff (hfetch : FetchesCommitted offsetFetch)
    (hlist : ListsBounds listOffsets bounds)
    (hassigned : manager.isAssigned topic partition = true)
    (hknown : partitionEntry (findTopicPartitionMetadata view topic) partition ≠ none)
    (hadmitted : 0 ≤ offset ∨ offset = latestOffset ∨ offset = earliestOffset)
    (hauto : (manager.withAutoCommit true).seekAndResolve view listOffsets offsetFetch group topic
      partition offset = .ok auto)
    (hmanual : (manager.withAutoCommit false).seekAndResolve view listOffsets offsetFetch group topic
      partition offset = .ok manual) :
    SeeksAlike manager auto manual bounds topic partition offset ↔
      (offset = latestOffset → bounds.latest topic partition = 0 ∧
        bounds.default ((manager.topicConfigurations topic).getD false) topic partition = 0) ∧
      (offset = earliestOffset → bounds.earliest topic partition = 0 ∧
        bounds.default ((manager.topicConfigurations topic).getD false) topic partition = 0) := by
  rw [seekAndResolve, seek_auto hassigned] at hauto
  rw [seekAndResolve, seek_manual hassigned] at hmanual
  have hautoNext := auto_nextOffset hfetch hlist hassigned hknown hauto
  have hmanualNext := manual_nextOffset hfetch hlist hmanual
  generalize hdefault : bounds.default ((manager.topicConfigurations topic).getD false) topic
    partition = default at hautoNext ⊢
  have hothers : SeeksAlike manager auto manual bounds topic partition offset ↔
      (auto.nextOffset topic partition).2 = soughtOffset bounds topic partition offset ∧
        (manual.nextOffset topic partition).2 = soughtOffset bounds topic partition offset := by
    refine ⟨fun h => ⟨h.autoNext, h.manualNext⟩, fun h => ⟨h.1, h.2, fun other id hne => ?_,
      fun other id hne => ?_⟩⟩
    · exact resolved_of_ne hne hfetch hlist hauto hmanual
    · exact committed_of_ne hne hfetch hlist hauto hmanual
  rw [hothers, hautoNext, hmanualNext, soughtOffset]
  unfold latestOffset earliestOffset at *
  rcases hadmitted with hle | hlatest | hearliest
  · have hne : offset ≠ -1 ∧ offset ≠ -2 := by omega
    simp [hle, hne.1, hne.2, Int.not_lt.mpr hle]
  · subst hlatest
    simp
    omega
  · subst hearliest
    simp
    omega

/-! ## Samples -/

/-- An offset manager with one partition, which has a committed offset. -/
def seekSample : OffsetManager :=
  { autoCommit := true
    memberAssignment := ⟨InsertionMap.empty.set "t" [0], noProto_single⟩
    topicConfigurations := fun _ => some false
    resolvedOffsets := fun _ => .empty
    committedOffsets := Function.update (fun _ => none) ("t", 0) (some (.ofInt 7)) }

/-- The partition has the messages up to offset 9. -/
def seekBounds : Bounds :=
  { earliest := fun _ _ => 0
    latest := fun _ _ => 10
    earliest_nonneg := fun _ _ => by decide
    latest_nonneg := fun _ _ => by decide }

def seekFetch (group : String → Int → Int) : OffsetFetch :=
  fun request => .ok (answerWith (fun topic id => (id, group topic id)) request)

def seekList : ListOffsets :=
  fun _ query =>
    .ok (answerWith (fun _ pair => (pair.1, if pair.2 = earliestOffset then 0 else 10)) query)

/-- The coordinator of the sample has what was committed. -/
theorem seekFetch_commits : FetchesCommitted seekFetch := by
  intro group request answer hnodup hanswer
  cases hanswer
  refine ⟨answersFetch_answerWith group hnodup, fun topic partition offset h => ?_⟩
  obtain ⟨_, _, _, _, hvalue⟩ := lists_answerWith.mp h
  cases hvalue
  rfl

/-- The broker of the sample lists its bounds. -/
theorem seekList_bounds : ListsBounds seekList seekBounds := by
  intro broker query answer hanswer
  cases hanswer
  constructor
  · refine @answersList_answerWith query (fun _ _ timestamp =>
      if timestamp = earliestOffset then 0 else 10) fun _ _ timestamp => ?_
    split <;> decide
  · intro topic partition fromBeginning offset hasked h
    obtain ⟨list, pair, hlist, hpair, hvalue⟩ := lists_answerWith.mp h
    cases hvalue
    have htimestamp : pair.2 = defaultOffset fromBeginning := (hasked _).mp ⟨list, hlist, hpair⟩
    rw [htimestamp]
    cases fromBeginning <;> rfl

/-- The sample manager waits for the partition that was cleared. -/
theorem seekSample_pending :
    ((seekSample.withAutoCommit true).clearOffsets "t" 0).pendingPartitions = [("t", [0])] := by
  have hentries : ((seekSample.withAutoCommit true).clearOffsets "t"
      0).memberAssignment.partitions.nameEntries = [("t", [0])] :=
    InsertionMap.nameEntries_of_entries rfl
  rw [pendingPartitions, hentries]
  decide

/-- With auto-commit, given the offset that is stored in the end. -/
theorem seekSample_auto {offset stored : Int}
    (h : ((seekSample.withAutoCommit true).clearOffsets "t" 0).initialOffsets sampleView seekList
      [("t", [(0, offset)])] = .ok [("t", [(0, some stored)])]) :
    (seekSample.withAutoCommit true).seekAndResolve sampleView seekList seekFetch (fun _ _ => 7) "t" 0
      offset = .ok (((seekSample.withAutoCommit true).clearOffsets "t" 0).storeOffsets
        [("t", [(0, some stored)])]) := by
  rw [seekAndResolve, seek_auto (by decide)]
  show resolveOffsets _ _ _ _ = _
  rw [resolveOffsets, if_neg (by rw [seekSample_pending]; decide), seekSample_pending]
  show (initialOffsets _ sampleView seekList [("t", [(0, offset)])] >>= _) = _
  rw [h]
  rfl

/-- The sample manager without auto-commit resolves the offset before. -/
theorem seekSample_manual (offset : Int) :
    (seekSample.withAutoCommit false).seekAndResolve sampleView seekList seekFetch (fun _ _ => 7) "t"
      0 offset = .ok ((seekSample.withAutoCommit false).resolveOffset "t" 0 (offset - 1)) := by
  have hpending : ((seekSample.withAutoCommit false).resolveOffset "t" 0
      (offset - 1)).pendingPartitions = [] := by
    rw [pendingPartitions, show ((seekSample.withAutoCommit false).resolveOffset "t" 0
      (offset - 1)).memberAssignment.partitions.nameEntries = [("t", [0])] from
      InsertionMap.nameEntries_of_entries rfl]
    rfl
  rw [seekAndResolve, seek_manual (by decide)]
  show resolveOffsets _ _ _ _ = _
  rw [resolveOffsets, if_pos hpending]
  rfl

/-- A seek within the bounds is the same both ways. -/
theorem seeksAlike_sample :
    SeeksAlike seekSample
      (((seekSample.withAutoCommit true).clearOffsets "t" 0).storeOffsets [("t", [(0, some 5)])])
      ((seekSample.withAutoCommit false).resolveOffset "t" 0 (5 - 1)) seekBounds "t" 0 5 :=
  (seeksAlike_iff seekFetch_commits seekList_bounds (by decide) (by decide) (by decide)
    (seekSample_auto (by rfl)) (seekSample_manual 5)).mpr (by decide)

/-- A seek to the latest offset, which is 10, leads there with auto-commit and to zero without. -/
theorem not_seeksAlike_latest :
    ∃ auto manual,
      (seekSample.withAutoCommit true).seekAndResolve sampleView seekList seekFetch (fun _ _ => 7)
        "t" 0 latestOffset = .ok auto ∧
      (seekSample.withAutoCommit false).seekAndResolve sampleView seekList seekFetch (fun _ _ => 7)
        "t" 0 latestOffset = .ok manual ∧
      (auto.nextOffset "t" 0).2 = 10 ∧ (manual.nextOffset "t" 0).2 = 0 ∧
      ¬ SeeksAlike seekSample auto manual seekBounds "t" 0 latestOffset := by
  have hfetched : fetchTopicsOffset sampleView seekList [⟨"t", [0], false, none⟩] =
      .ok [("t", [(0, 10)])] := fetchTopicsOffset_single (by decide) rfl rfl rfl
  have hoffsets : ((seekSample.withAutoCommit true).clearOffsets "t" 0).initialOffsets sampleView
      seekList [("t", [(0, latestOffset)])] = .ok [("t", [(0, some 10)])] := by
    have hunresolved : ((seekSample.withAutoCommit true).clearOffsets "t" 0).unresolvedPartitions
        [("t", [(0, latestOffset)])] = [⟨"t", [0], false, none⟩] := rfl
    rw [initialOffsets, hunresolved, if_pos (by decide), hfetched, ok_bind,
      initializeConsumerOffsets, InsertionMap.nameEntries_of_entries rfl]
    rfl
  refine ⟨_, _, seekSample_auto hoffsets, seekSample_manual latestOffset, by decide, by decide,
    fun h => ?_⟩
  have hnext := h.manualNext
  revert hnext
  decide

end OffsetManager

end KafkaJs.Consumer
