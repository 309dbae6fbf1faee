import KafkaJs.Consumer.GroupOffsets

/-!
# Topics looked up across a rebalance

The offset managers and the map of committed offsets have a record for every topic of their
assignment, and a lookup of another topic is a TypeError, which crashes the consumer. A new
assignment may lack a topic that a fetch, a call of an earlier offset manager or a batch has yet
to look up: `misses_lostTopic`. `found_of_noneLost` says that every lookup finds its record
in every run whose new assignments have all topics that are in use.
-/

namespace KafkaJs.Consumer

open Data Execution

variable {τ : Type} [DecidableEq τ]

namespace Offsets

/-- The offset manager with the number `index` has a record for the topic. -/
def HasRecord (offsets : Offsets τ) (index : Nat) (topic : τ) : Prop :=
  ∃ manager, offsets.managers[index]? = some manager ∧
    manager.resolvedOffsets.has topic = true

/-- Every lookup so far has found its record, and so does every lookup of an assigned topic. -/
structure Complete (offsets : Offsets τ) : Prop where
  misses : offsets.misses = []
  committed : ∀ topic ∈ offsets.manager.memberAssignment.keys,
    offsets.committedOffsets.has topic = true
  resolved : ∀ topic ∈ offsets.manager.memberAssignment.keys,
    offsets.manager.resolvedOffsets.has topic = true

/-- What the operations other than a new offset manager leave as it is. -/
structure Keeps (offsets next : Offsets τ) : Prop where
  misses : next.misses = offsets.misses
  assignment : next.manager.memberAssignment = offsets.manager.memberAssignment
  committed : ∀ topic, offsets.committedOffsets.has topic = true →
    next.committedOffsets.has topic = true
  resolved : ∀ topic, offsets.manager.resolvedOffsets.has topic = true →
    next.manager.resolvedOffsets.has topic = true
  records : ∀ index topic, offsets.HasRecord index topic → next.HasRecord index topic

variable {offsets next last : Offsets τ} {topic : τ}

/-- Offsets that do not change keep their records. -/
theorem Keeps.refl (offsets : Offsets τ) : Keeps offsets offsets :=
  ⟨rfl, rfl, fun _ => id, fun _ => id, fun _ _ => id⟩

/-- Keeping records twice is keeping them. -/
theorem Keeps.trans (first : Keeps offsets next) (second : Keeps next last) :
    Keeps offsets last where
  misses := second.misses.trans first.misses
  assignment := second.assignment.trans first.assignment
  committed topic h := second.committed topic (first.committed topic h)
  resolved topic h := second.resolved topic (first.resolved topic h)
  records index topic h := second.records index topic (first.records index topic h)

/-- Records that are kept stay complete. -/
theorem Complete.of_keeps (h : Complete offsets) (hkeeps : Keeps offsets next) :
    Complete next where
  misses := hkeeps.misses.trans h.misses
  committed := by
    rw [hkeeps.assignment]
    exact fun topic hmem => hkeeps.committed topic (h.committed topic hmem)
  resolved := by
    rw [hkeeps.assignment]
    exact fun topic hmem => hkeeps.resolved topic (h.resolved topic hmem)

/-- The record of the offset manager of the group. -/
theorem hasRecord_current (h : offsets.manager.resolvedOffsets.has topic = true) :
    offsets.HasRecord offsets.earlier.length topic :=
  ⟨offsets.manager, by simp [managers], h⟩

/-- Setting a key takes none away. -/
theorem has_set {ν : Type} (map : InsertionMap τ ν) (key : τ) (value : ν)
    (h : map.has topic = true) : (map.set key value).has topic = true := by
  rw [InsertionMap.has, InsertionMap.get?_set]
  split
  · rfl
  · exact h

/-- What has a value is there. -/
theorem has_of_get? {ν : Type} {map : InsertionMap τ ν} {value : ν}
    (h : map.get? topic = some value) : map.has topic = true := by
  rw [InsertionMap.has, h]
  rfl

/-- What is there has a value. -/
theorem get?_of_has {ν : Type} {map : InsertionMap τ ν} (h : map.has topic = true) :
    ∃ value, map.get? topic = some value :=
  Option.isSome_iff_exists.mp h

/-! ## What every operation keeps -/

/-- Records of the topics stay when records are stored. -/
theorem Keeps.of_manager {manager : Manager τ}
    (hassignment : manager.memberAssignment = offsets.manager.memberAssignment)
    (hresolved : ∀ topic, offsets.manager.resolvedOffsets.has topic = true →
      manager.resolvedOffsets.has topic = true) :
    Keeps offsets { offsets with manager := manager } where
  misses := rfl
  assignment := hassignment
  committed _ h := h
  resolved := hresolved
  records index topic h := by
    obtain ⟨found, hfound, htopic⟩ := h
    rcases Nat.lt_or_ge index offsets.earlier.length with hlt | hge
    · exact ⟨found, by simpa [managers, List.getElem?_append_left hlt] using hfound, htopic⟩
    · rw [managers, List.getElem?_append_right hge] at hfound
      obtain ⟨hindex, rfl⟩ : index - offsets.earlier.length = 0 ∧ offsets.manager = found := by
        simpa [List.getElem?_singleton] using hfound
      refine ⟨manager, ?_, hresolved topic htopic⟩
      rw [managers, List.getElem?_append_right hge]
      simp [hindex]

/-- Storing resolved offsets keeps all records. -/
theorem keeps_setResolved (offsets : Offsets τ) (topic : τ)
    (partitions : InsertionMap Int (Option Int)) :
    Keeps offsets (offsets.setResolved topic partitions) :=
  Keeps.of_manager rfl fun _ => has_set offsets.manager.resolvedOffsets topic partitions

/-- Resolving an offset keeps all records. -/
theorem keeps_resolve (h : offsets.manager.resolvedOffsets.has topic = true) (partition : Int)
    (position : Option Int) : Keeps offsets (offsets.resolve topic partition position) := by
  obtain ⟨partitions, hpartitions⟩ := get?_of_has h
  rw [resolve, hpartitions]
  exact keeps_setResolved offsets topic _

/-- Resetting an offset keeps all records. -/
theorem keeps_reset (h : Complete offsets)
    (htopic : topic ∈ offsets.manager.memberAssignment.keys) (partition : Int) :
    Keeps offsets (offsets.reset topic partition) := by
  obtain ⟨committed, hcommitted⟩ := get?_of_has (h.committed topic htopic)
  rw [reset, hcommitted]
  exact keeps_resolve (h.resolved topic htopic) partition _

/-- Marking the offsets of a topic keeps all records. -/
theorem keeps_markTopic (offsets : Offsets τ) (topic : τ) (marked : List (Int × Int)) :
    Keeps offsets (offsets.markTopic topic marked) :=
  ⟨rfl, rfl, fun _ => has_set offsets.committedOffsets topic _, fun _ => id, fun _ _ => id⟩

/-- Marking offsets keeps all records. -/
theorem keeps_mark (offsets : Offsets τ) (topics : List (τ × List (Int × Int))) :
    Keeps offsets (offsets.mark topics) := by
  induction topics generalizing offsets with
  | nil => exact Keeps.refl offsets
  | cons entry topics ih =>
      exact (keeps_markTopic offsets entry.1 entry.2).trans (ih (offsets.markTopic entry.1 entry.2))

/-- An unresolve keeps the record of each topic. -/
theorem has_unresolve (manager : Manager τ) (first : τ) (partition : Int)
    (h : manager.resolvedOffsets.has topic = true) :
    (unresolve manager first partition).resolvedOffsets.has topic = true := by
  unfold unresolve
  split
  · exact h
  · exact has_set manager.resolvedOffsets first _ h

/-- An unresolve keeps the assignment. -/
theorem assignment_unresolve (manager : Manager τ) (topic : τ) (partition : Int) :
    (unresolve manager topic partition).memberAssignment = manager.memberAssignment := by
  unfold unresolve
  split <;> rfl

/-- Records of the topics stay when an earlier offset manager forgets a partition. -/
theorem keeps_earlier (offsets : Offsets τ) (index : Nat) (first : τ) (partition : Int) :
    Keeps offsets { offsets with
      earlier := offsets.earlier.modify index fun manager =>
        unresolve manager first partition } where
  misses := rfl
  assignment := rfl
  committed _ h := h
  resolved _ h := h
  records place topic h := by
    obtain ⟨found, hfound, htopic⟩ := h
    rcases Nat.lt_or_ge place offsets.earlier.length with hlt | hge
    · rw [managers, List.getElem?_append_left hlt] at hfound
      have hlength : place <
          (offsets.earlier.modify index fun manager => unresolve manager first partition).length := by
        rwa [List.length_modify]
      rw [HasRecord, managers]
      simp only [List.getElem?_append_left hlength, List.getElem?_modify, hfound]
      split
      · exact ⟨_, rfl, has_unresolve found first partition htopic⟩
      · exact ⟨_, rfl, htopic⟩
    · refine ⟨found, ?_, htopic⟩
      rw [managers, List.getElem?_append_right hge] at hfound
      rw [managers, List.getElem?_append_right (by simpa using hge)]
      simpa using hfound

/-- Clearing the offsets of a partition keeps all records. -/
theorem keeps_clearOffsets (hcommitted : offsets.committedOffsets.has topic = true) {index : Nat}
    (hrecord : offsets.HasRecord index topic) (partition : Int) :
    Keeps offsets (offsets.clearOffsets index topic partition).1 := by
  obtain ⟨committed, hfound⟩ := get?_of_has hcommitted
  obtain ⟨manager, hmanager, htopic⟩ := hrecord
  -- the record of the topic loses a partition
  have hcleared : Keeps offsets { offsets with
      committedOffsets := offsets.committedOffsets.set topic (committed.delete partition) } :=
    ⟨rfl, rfl, fun _ => has_set offsets.committedOffsets topic _, fun _ => id, fun _ _ => id⟩
  have hsame : managers { offsets with
      committedOffsets := offsets.committedOffsets.set topic (committed.delete partition) } =
        offsets.managers := rfl
  rw [clearOffsets, hfound]
  dsimp only
  rw [hsame, hmanager, if_pos (by simpa using htopic)]
  split
  · exact hcleared.trans (Keeps.of_manager (assignment_unresolve _ _ _)
      fun _ => has_unresolve _ topic partition)
  · exact hcleared.trans (keeps_earlier _ index topic partition)

/-- The next offsets of a topic with a record are found. -/
theorem exists_nextOffsets (h : offsets.manager.resolvedOffsets.has topic = true)
    (selected : List Int) : ∃ result, nextOffsets topic offsets selected = some result := by
  induction selected generalizing offsets with
  | nil => exact ⟨_, rfl⟩
  | cons partition selected ih =>
      obtain ⟨partitions, hpartitions⟩ := get?_of_has h
      obtain ⟨⟨next, offset⟩, hnext⟩ :
          ∃ result, offsets.nextOffset topic partition = some result := by
        rw [nextOffset, hpartitions]
        exact ⟨_, rfl⟩
      have hrecord : next.manager.resolvedOffsets.has topic = true := by
        obtain rfl | ⟨partitions, -, rfl⟩ := nextOffset_cases hnext
        · exact h
        · exact (keeps_setResolved offsets topic _).resolved topic h
      obtain ⟨rest, hrest⟩ := ih hrecord
      rw [nextOffsets, hnext, Option.bind_some, hrest]
      exact ⟨_, rfl⟩

/-- The partitions to fetch of an assigned topic are found. -/
theorem exists_fetchable (h : Complete offsets)
    (htopic : topic ∈ offsets.manager.memberAssignment.keys) (paused : List (τ × Int))
    (partitions : List Int) : ∃ selected, offsets.fetchable paused topic partitions = some selected := by
  obtain ⟨committed, hcommitted⟩ := get?_of_has (h.committed topic htopic)
  obtain ⟨assigned, hassigned⟩ := InsertionMap.mem_keys_iff.mp htopic
  rw [fetchable, hcommitted, hassigned, Option.bind_some]
  split
  · exact ⟨_, rfl⟩
  · dsimp only
    split
    · exact ⟨_, rfl⟩
    · exact ⟨_, rfl⟩

/-- The requests of `fetch` look up topics that are assigned. -/
theorem keeps_buildRequests (h : Complete offsets) (paused : List (τ × Int))
    {topicPartitions : List (τ × List Int)}
    (hknown : ∀ place ∈ GroupOffsets.places topicPartitions,
      place.1 ∈ offsets.manager.memberAssignment.keys) :
    Keeps offsets (buildRequests paused offsets topicPartitions).1 := by
  refine of_buildRequests (motive := Keeps offsets) ?_ ?_ (Keeps.refl offsets)
  · intro current next topic partition offset hcurrent _ hnext
    obtain rfl | ⟨partitions, -, rfl⟩ := nextOffset_cases hnext
    · exact hcurrent
    · exact hcurrent.trans (keeps_setResolved current topic _)
  · intro current topic partitions hcurrent hmem hnone
    have hcomplete := h.of_keeps hcurrent
    cases partitions with
    | nil => cases hnone
    | cons partition partitions =>
        -- a topic with partitions is assigned, and its records are found
        have htopic : topic ∈ current.manager.memberAssignment.keys := by
          rw [hcurrent.assignment]
          exact hknown (topic, partition)
            (GroupOffsets.mem_places.mpr ⟨_, hmem, List.mem_cons_self⟩)
        obtain ⟨selected, hselected⟩ :=
          exists_fetchable hcomplete htopic paused (partition :: partitions)
        obtain ⟨result, hresult⟩ :=
          exists_nextOffsets (hcomplete.resolved topic htopic) selected
        rw [hselected, Option.bind_some, hresult] at hnone
        cases hnone

omit [DecidableEq τ] in
/-- Comparing offsets misses no record. -/
theorem changedOffsets_ne_missing (committed : InsertionMap Int Int)
    (positions : List (Int × Option Int)) (topic : τ) :
    changedOffsets committed positions ≠ .error (.missing topic) := by
  induction positions with
  | nil => exact nofun
  | cons entry positions ih =>
      obtain ⟨partition, position⟩ := entry
      unfold changedOffsets
      split
      · exact ih
      · cases position with
        | none => exact nofun
        | some offset =>
            dsimp only
            cases hrest : changedOffsets committed positions with
            | error thrown =>
                intro hthrown
                cases hthrown
                exact ih hrest
            | ok changed => exact nofun

/-- `uncommittedOffsets` looks up the topics of its own assignment. -/
theorem uncommittedOffsets_ne_missing (h : Complete offsets) {topics : List τ}
    (hknown : ∀ topic ∈ topics, topic ∈ offsets.manager.memberAssignment.keys) (topic : τ) :
    offsets.uncommittedOffsets topics ≠ .error (.missing topic) := by
  induction topics with
  | nil => exact nofun
  | cons first topics ih =>
      have hfirst := hknown first List.mem_cons_self
      obtain ⟨partitions, hpartitions⟩ := get?_of_has (h.resolved first hfirst)
      obtain ⟨committed, hcommitted⟩ := get?_of_has (h.committed first hfirst)
      have htopic : offsets.topicOffsets first ≠ .error (.missing topic) := by
        rw [topicOffsets, hpartitions, hcommitted]
        dsimp only
        split
        · exact nofun
        · exact changedOffsets_ne_missing committed partitions.entries topic
      rw [uncommittedOffsets]
      cases hchanged : offsets.topicOffsets first with
      | error thrown =>
          intro hthrown
          cases hthrown
          exact htopic hchanged
      | ok changed =>
          cases hrest : offsets.uncommittedOffsets topics with
          | error thrown =>
              intro hthrown
              cases hthrown
              exact ih (fun topic hmem => hknown topic (List.mem_cons_of_mem _ hmem)) hrest
          | ok rest => exact nofun

/-- A new offset manager has its records, and those before it keep theirs. -/
theorem Complete.install (h : Complete offsets) (generationId : Int)
    (memberAssignment : InsertionMap τ (List Int)) :
    Complete (offsets.install generationId memberAssignment) where
  misses := h.misses
  committed topic hmem := has_of_get? ((GroupOffsets.get?_indexTopics _ topic).trans (if_pos hmem))
  resolved topic hmem := has_of_get? ((GroupOffsets.get?_indexTopics _ topic).trans (if_pos hmem))

/-- A former record stays when another assignment is installed. -/
theorem HasRecord.install {index : Nat} (h : offsets.HasRecord index topic) (generationId : Int)
    (memberAssignment : InsertionMap τ (List Int)) :
    (offsets.install generationId memberAssignment).HasRecord index topic := by
  obtain ⟨manager, hmanager, htopic⟩ := h
  refine ⟨manager, ?_, htopic⟩
  show (offsets.managers ++ [_])[index]? = some manager
  rw [List.getElem?_append_left (List.getElem?_eq_some_iff.mp hmanager).1, hmanager]

end Offsets

namespace GroupOffsets

open Offsets

/-! ## What should hold -/

/-- Every lookup of a topic has found its record. -/
def Found (state : GroupOffsets τ) : Prop := state.offsets.misses = []

/-- The topics that a fetch has captured and may still look up. -/
def usedTopics (fetch : GroupFetch τ) : List τ :=
  match fetch.phase with
  | .refreshing => []
  | .seeking todo => (places fetch.topicPartitions ++ todo).map Prod.fst
  | .committing _ topic _ todo =>
      topic :: (places fetch.topicPartitions ++ todo).map Prod.fst
  | .resolving _ _ | .ready => (places fetch.topicPartitions).map Prod.fst
  | .requesting _ requests => (requested requests).map Prod.fst
  | .defaulting _ topic _ => [topic]

/-- The topics that the fetches and the batches may still look up. -/
def topicsInUse (state : GroupOffsets τ) : List τ :=
  state.fetches.flatMap usedTopics ++ state.batches.map FetchedBatch.topic

/-- A new assignment has all topics that are in use. -/
def NoneLost (state : GroupOffsets τ) : Event τ → Prop
  | .install _ memberAssignment => ∀ topic ∈ state.topicsInUse, topic ∈ memberAssignment.keys
  | _ => True

/-- `NoneLost` is decidable event by event. -/
instance (state : GroupOffsets τ) : ∀ event, Decidable (NoneLost state event)
  | .install _ memberAssignment =>
      inferInstanceAs (Decidable (∀ topic ∈ state.topicsInUse, topic ∈ memberAssignment.keys))
  | .fetch | .refreshed _ _ | .seekAnswered _ | .goesOn _ | .offsetsFetched _ _ | .build _
  | .responds _ _ | .outOfRange _ _ _ | .defaultAnswered _ | .fetchFails _ | .resolveOffset _ _
  | .resetOffset _ | .batchEnds _ | .commit | .commitAnswered _ | .commitFails _ | .seek _ _ _
  | .pause _ => isTrue trivial

/-! ## What every step preserves -/

/-- The call of an offset manager that a fetch waits for. -/
def capturedCall : FetchPhase τ → Option (Nat × τ)
  | .committing manager topic _ _ | .defaulting manager topic _ => some (manager, topic)
  | .refreshing | .seeking _ | .resolving _ _ | .ready | .requesting _ _ => none

/-- The topics of a fetch are assigned, and the offset manager that it has called knows the
topic. -/
structure Fits (offsets : Offsets τ) (fetch : GroupFetch τ) : Prop where
  used : ∀ topic ∈ usedTopics fetch, topic ∈ offsets.manager.memberAssignment.keys
  captured : ∀ call ∈ capturedCall fetch.phase, offsets.HasRecord call.1 call.2

/-- The invariant of a group whose assignments lose no topic in use. -/
structure Sound (state : GroupOffsets τ) : Prop where
  complete : state.offsets.Complete
  fetches : ∀ fetch ∈ state.fetches, Fits state.offsets fetch
  batches : ∀ batch ∈ state.batches, batch.topic ∈ state.offsets.manager.memberAssignment.keys

variable {state next : GroupOffsets τ} {offsets : Offsets τ} {index : Nat}

omit [DecidableEq τ] in
/-- The topics of places are among the keys if each place is. -/
theorem mem_map_fst {places : List (τ × Int)} {keys : List τ}
    (h : ∀ place ∈ places, place.1 ∈ keys) : ∀ topic ∈ places.map Prod.fst, topic ∈ keys := by
  intro topic hmem
  obtain ⟨place, hplace, rfl⟩ := List.mem_map.mp hmem
  exact h place hplace

/-- A fetch still fits when all records are kept. -/
theorem Fits.of_keeps {fetch : GroupFetch τ} {next : Offsets τ} (h : Fits offsets fetch)
    (hkeeps : Keeps offsets next) : Fits next fetch where
  used := by
    rw [hkeeps.assignment]
    exact h.used
  captured call hmem := hkeeps.records call.1 call.2 (h.captured call hmem)

/-- The offsets change and nothing else does. -/
theorem Sound.of_keeps (h : Sound state) (hkeeps : Keeps state.offsets next.offsets)
    (hfetches : ∀ fetch ∈ next.fetches, fetch ∈ state.fetches ∨ Fits next.offsets fetch)
    (hbatches : ∀ batch ∈ next.batches, batch ∈ state.batches ∨
      batch.topic ∈ next.offsets.manager.memberAssignment.keys) : Sound next where
  complete := h.complete.of_keeps hkeeps
  fetches := by
    intro fetch hmem
    cases hfetches fetch hmem with
    | inl hold => exact (h.fetches fetch hold).of_keeps hkeeps
    | inr hnew => exact hnew
  batches := by
    intro batch hmem
    cases hbatches batch hmem with
    | inl hold =>
        rw [hkeeps.assignment]
        exact h.batches batch hold
    | inr hnew => exact hnew

/-- A fetch goes on or ends, and the offsets change. -/
theorem Sound.setFetch {fetch : Option (GroupFetch τ)} (h : Sound state)
    (hkeeps : Keeps state.offsets next.offsets) (hfetches : next.fetches = state.fetches)
    (hbatches : next.batches = state.batches)
    (hfits : ∀ found ∈ fetch, Fits next.offsets found) : Sound (next.setFetch index fetch) := by
  cases fetch with
  | none =>
      refine h.of_keeps hkeeps (fun found hmem => .inl ?_) (fun batch hmem => .inl ?_)
      · rw [← hfetches]
        exact List.mem_of_mem_eraseIdx hmem
      · rw [← hbatches]
        exact hmem
  | some fetch =>
      refine h.of_keeps hkeeps (fun found hmem => ?_) (fun batch hmem => .inl ?_)
      · cases List.mem_or_eq_of_mem_set hmem with
        | inl hold => exact .inl (by rwa [← hfetches])
        | inr hnew =>
            subst hnew
            exact .inr (hfits _ rfl)
      · rw [← hbatches]
        exact hmem

/-- The loop of `seekOffsets` looks up assigned topics. -/
theorem fits_seekOffsets (h : offsets.Complete) (autoCommit : Bool)
    (seekOffset : InsertionMap (τ × Int) Int) {topicPartitions : List (τ × List Int)}
    (hplaces : ∀ place ∈ places topicPartitions,
      place.1 ∈ offsets.manager.memberAssignment.keys) {todo : List (τ × Int)}
    (htodo : ∀ place ∈ todo, place.1 ∈ offsets.manager.memberAssignment.keys) :
    Keeps offsets (seekOffsets autoCommit offsets seekOffset todo).1 ∧
      ∀ phase ∈ (seekOffsets autoCommit offsets seekOffset todo).2.2,
        Fits (seekOffsets autoCommit offsets seekOffset todo).1 ⟨topicPartitions, phase⟩ := by
  induction todo with
  | nil =>
      -- a complete manager has a record for every topic that it would commit
      have hcommitted : offsets.uncommittedTopic = none := by
        simp only [uncommittedTopic, Option.map_eq_none_iff, List.find?_eq_none]
        intro entry hmem
        simp [h.committed entry.1 (List.mem_map_of_mem hmem)]
      simp only [seekOffsets, hcommitted]
      refine ⟨Keeps.refl offsets, fun phase hphase => ?_⟩
      split at hphase
      · cases hphase
        exact ⟨mem_map_fst hplaces, fun call hcall => by cases hcall⟩
      · cases hphase
        exact ⟨mem_map_fst hplaces, fun call hcall => by cases hcall⟩
  | cons place todo ih =>
      obtain ⟨topic, partition⟩ := place
      have hrest : ∀ place ∈ todo, place.1 ∈ offsets.manager.memberAssignment.keys :=
        fun place hmem => htodo place (List.mem_cons_of_mem _ hmem)
      -- the places of the fetch, with those of the seeks that are left
      have hused : ∀ place ∈ places topicPartitions ++ todo,
          place.1 ∈ offsets.manager.memberAssignment.keys := by
        intro place hmem
        cases List.mem_append.mp hmem with
        | inl hmem => exact hplaces place hmem
        | inr hmem => exact hrest place hmem
      rw [seekOffsets]
      split
      · exact ih hrest
      · next offset hoffset =>
          dsimp only
          split
          · refine ⟨Keeps.refl offsets, fun phase hphase => ?_⟩
            cases hphase
            exact ⟨mem_map_fst hused, fun call hcall => by cases hcall⟩
          · next hassigned =>
              have htopic : topic ∈ offsets.manager.memberAssignment.keys :=
                Manager.mem_keys_of_isAssigned (by simpa using hassigned)
              split
              · have hkeeps := keeps_resolve (h.resolved topic htopic) partition (some offset)
                refine ⟨hkeeps, fun phase hphase => ?_⟩
                cases hphase
                refine Fits.of_keeps ⟨mem_map_fst hused, fun call hcall => ?_⟩ hkeeps
                cases hcall
              · refine ⟨Keeps.refl offsets, fun phase hphase => ?_⟩
                cases hphase
                refine ⟨fun found hfound => ?_, fun call hcall => ?_⟩
                · cases List.mem_cons.mp hfound with
                  | inl heq =>
                      rw [heq]
                      exact htopic
                  | inr hmem => exact mem_map_fst hused found hmem
                · cases hcall
                  exact hasRecord_current (h.resolved topic htopic)

/-- Going on with the seeks of a fetch finds all records. -/
theorem Sound.seekFrom (h : Sound state) {topicPartitions : List (τ × List Int)}
    (hplaces : ∀ place ∈ places topicPartitions,
      place.1 ∈ state.offsets.manager.memberAssignment.keys) {todo : List (τ × Int)}
    (htodo : ∀ place ∈ todo, place.1 ∈ state.offsets.manager.memberAssignment.keys) :
    Sound (state.seekFrom index topicPartitions todo) := by
  obtain ⟨hkeeps, hfits⟩ :=
    fits_seekOffsets h.complete state.autoCommit state.seekOffset hplaces htodo
  let result := seekOffsets state.autoCommit state.offsets state.seekOffset todo
  show Sound (GroupOffsets.setFetch { state with offsets := result.1, seekOffset := result.2.1 } index
    (result.2.2.map (GroupFetch.mk topicPartitions)))
  refine h.setFetch hkeeps rfl rfl fun found hfound => ?_
  obtain ⟨phase, hphase, rfl⟩ := Option.map_eq_some_iff.mp hfound
  exact hfits phase hphase

/-- The partitions of a node are of assigned topics. -/
theorem mem_keys_of_partitionsOfNode {leads : List (τ × Int)} :
    ∀ place ∈ places (state.partitionsOfNode leads),
      place.1 ∈ state.offsets.manager.memberAssignment.keys := by
  rintro ⟨topic, partition⟩ hmem
  obtain ⟨partitions, hentry, -⟩ := mem_places.mp hmem
  obtain ⟨entry, hassigned, heq⟩ := List.mem_map.mp hentry
  cases heq
  exact List.mem_map_of_mem hassigned

/-- Building the request of a fetch finds all records. -/
theorem Sound.request (h : Sound state) {topicPartitions : List (τ × List Int)}
    (hplaces : ∀ place ∈ places topicPartitions,
      place.1 ∈ state.offsets.manager.memberAssignment.keys) :
    Sound (state.request index topicPartitions) := by
  have hkeeps := keeps_buildRequests h.complete state.paused hplaces
  let result := buildRequests state.paused state.offsets topicPartitions
  show Sound (GroupOffsets.setFetch { state with offsets := result.1 } index _)
  refine h.setFetch hkeeps rfl rfl fun found hfound => ?_
  split at hfound
  · cases hfound
  · cases hfound
  · next requests hrequests =>
      cases hfound
      obtain ⟨built, hbuilt, rfl⟩ := Option.map_eq_some_iff.mp hrequests
      refine Fits.of_keeps ⟨mem_map_fst fun place hmem => ?_, fun call hcall => ?_⟩ hkeeps
      · obtain ⟨topic, partition⟩ := place
        obtain ⟨entries, hentries, hpartition⟩ := mem_requested.mp hmem
        have hrequested : (topic, partition) ∈ requested built :=
          mem_requested.mpr ⟨entries, (List.mem_filter.mp hentries).1, hpartition⟩
        exact hplaces _ (requested_of_buildRequests hbuilt hrequested).1
      · cases hcall

/-- The topics of a fetch that is under way. -/
theorem Sound.used (h : Sound state) {fetch : GroupFetch τ}
    (hfetch : state.fetches[index]? = some fetch) {topic : τ} (hmem : topic ∈ usedTopics fetch) :
    topic ∈ state.offsets.manager.memberAssignment.keys :=
  (h.fetches fetch (List.mem_of_getElem? hfetch)).used topic hmem

/-- A call of an offset manager clears the offsets of a partition. -/
theorem Sound.cleared (h : Sound state) {fetch : GroupFetch τ}
    (hfetch : state.fetches[index]? = some fetch) {manager : Nat} {topic : τ}
    (hcall : capturedCall fetch.phase = some (manager, topic))
    (hused : topic ∈ usedTopics fetch) (partition : Int) :
    Keeps state.offsets (state.offsets.clearOffsets manager topic partition).1 :=
  keeps_clearOffsets (h.complete.committed topic (h.used hfetch hused))
    ((h.fetches fetch (List.mem_of_getElem? hfetch)).captured _ hcall) partition

/-- At first every assigned topic has its records. -/
theorem Sound.initial (autoCommit : Bool) (generationId : Int)
    (memberAssignment : InsertionMap τ (List Int)) :
    Sound (GroupOffsets.initial autoCommit generationId memberAssignment) where
  complete :=
    { misses := rfl
      committed := fun topic hmem => has_of_get? ((get?_indexTopics _ topic).trans (if_pos hmem))
      resolved := fun topic hmem => has_of_get? ((get?_indexTopics _ topic).trans (if_pos hmem)) }
  fetches := by
    intro fetch hmem
    cases hmem
  batches := by
    intro batch hmem
    cases hmem

/-- A new offset manager knows the topics that are in use. -/
theorem Sound.install (h : Sound state) {generationId : Int}
    {memberAssignment : InsertionMap τ (List Int)}
    (hkept : ∀ topic ∈ state.topicsInUse, topic ∈ memberAssignment.keys) :
    Sound { state with offsets := state.offsets.install generationId memberAssignment } where
  complete := h.complete.install generationId memberAssignment
  fetches fetch hmem :=
    { used := fun topic hused =>
        hkept topic (List.mem_append_left _ (List.mem_flatMap.mpr ⟨fetch, hmem, hused⟩))
      captured := fun call hcall => HasRecord.install ((h.fetches fetch hmem).captured call hcall)
        generationId memberAssignment }
  batches batch hmem := hkept batch.topic (List.mem_append_right _ (List.mem_map_of_mem hmem))

/-- Every event in which no topic is lost keeps the records. -/
theorem Sound.step {event : Event τ} (h : Sound state) (hnone : NoneLost state event)
    (hfires : Fires state event next) : Sound next := by
  cases hfires with
  | fetch =>
      refine h.of_keeps (Keeps.refl _) (fun fetch hmem => ?_) (fun _ => .inl)
      cases List.mem_append.mp hmem with
      | inl hold => exact .inl hold
      | inr hnew =>
          rw [List.mem_singleton.mp hnew]
          refine .inr ⟨fun topic hused => ?_, fun call hcall => ?_⟩
          · cases hused
          · cases hcall
  | refreshed hfetch =>
      -- the partitions of the node are assigned at this moment
      exact h.seekFrom mem_keys_of_partitionsOfNode mem_keys_of_partitionsOfNode
  | @seekAnswered _ _ _ _ partition _ hfetch =>
      have hkeeps := h.cleared hfetch rfl List.mem_cons_self partition
      refine h.setFetch hkeeps rfl rfl fun found hfound => ?_
      split at hfound
      · cases hfound
        refine Fits.of_keeps ⟨fun found hmem => ?_, fun call hcall => by cases hcall⟩ hkeeps
        exact h.used hfetch (List.mem_cons_of_mem _ hmem)
      · cases hfound
  | goesOn hfetch =>
      refine h.seekFrom (fun place hmem => ?_) (fun place hmem => ?_)
      · exact h.used hfetch (List.mem_map_of_mem (List.mem_append_left _ hmem))
      · exact h.used hfetch (List.mem_map_of_mem (List.mem_append_right _ hmem))
  | @offsetsFetched _ offsets _ _ _ hfetch hrequested =>
      have hkeeps := keeps_mark state.offsets offsets
      refine h.setFetch hkeeps rfl rfl fun found hfound => ?_
      cases hfound
      exact Fits.of_keeps ⟨fun topic => h.used hfetch, fun call hcall => by cases hcall⟩ hkeeps
  | build hfetch => exact h.request fun place hmem => h.used hfetch (List.mem_map_of_mem hmem)
  | responds hfetch hrequested =>
      refine h.of_keeps (Keeps.refl _) (fun fetch hmem => .inl (List.mem_of_mem_eraseIdx hmem))
        (fun batch hmem => ?_)
      cases List.mem_append.mp hmem with
      | inl hold => exact .inl hold
      | inr hnew =>
          obtain ⟨place, hplace, rfl⟩ := List.mem_map.mp hnew
          exact .inr (h.used hfetch
            (List.mem_map_of_mem (hrequested place (List.mem_filter.mp hplace).1)))
  | outOfRange hfetch hrequested =>
      have htopic := h.used hfetch (List.mem_map_of_mem hrequested)
      refine h.setFetch (Keeps.refl _) rfl rfl fun found hfound => ?_
      cases hfound
      refine ⟨fun used hused => ?_, fun call hcall => ?_⟩
      · rw [List.mem_singleton.mp hused]
        exact htopic
      · cases hcall
        exact hasRecord_current (h.complete.resolved _ htopic)
  | @defaultAnswered _ _ _ _ partition hfetch =>
      exact h.setFetch (h.cleared hfetch rfl List.mem_cons_self partition) rfl rfl
        fun found hfound => by cases hfound
  | fetchFails hwaiting =>
      exact h.setFetch (Keeps.refl _) rfl rfl fun found hfound => by cases hfound
  | @resolveOffset _ _ _ partition _ hbatch =>
      have htopic := h.batches _ (List.mem_of_getElem? hbatch)
      exact h.of_keeps (keeps_resolve (h.complete.resolved _ htopic) partition _)
        (fun _ => .inl) (fun _ => .inl)
  | @resetOffset _ _ partition _ hbatch =>
      have htopic := h.batches _ (List.mem_of_getElem? hbatch)
      exact h.of_keeps (keeps_reset h.complete htopic partition) (fun _ => .inl) (fun _ => .inl)
  | batchEnds hbatch =>
      exact h.of_keeps (Keeps.refl _) (fun _ => .inl)
        (fun batch hmem => .inl (List.mem_of_mem_eraseIdx hmem))
  | commitMisses herror =>
      exact absurd herror (uncommittedOffsets_ne_missing h.complete (fun _ => id) _)
  | commitNothing => exact h
  | @commitAnswered _ payload hpayload =>
      exact h.of_keeps (keeps_mark state.offsets payload.topics) (fun _ => .inl) (fun _ => .inl)
  | commitSends | commitFails | seek | pause => exact ⟨h.complete, h.fetches, h.batches⟩
  | install honce => exact h.install hnone

/-! ## Runs of a group that rebalances -/

/-- Where every new assignment has the topics that are in use, every lookup of a topic finds its
record. -/
theorem found_of_noneLost {autoCommit : Bool} {generationId : Int}
    {memberAssignment : InsertionMap τ (List Int)} {events : List (Event τ)}
    {final : GroupOffsets τ}
    (hnone : Meets step NoneLost (initial autoCommit generationId memberAssignment) events)
    (hrun : run step (initial autoCommit generationId memberAssignment) events = some final) :
    final.Found := by
  have hsound : Sound final := invariant_of_meets
    (fun _ _ _ h hnone hstep => h.step hnone (fires_of_step hstep))
    (Sound.initial autoCommit generationId memberAssignment) hnone hrun
  exact hsound.complete.misses

/-- A consumer of one partition of each of two topics has fetched a batch of the second one. -/
def batchFetched : List (Event Nat) :=
  [.fetch, .refreshed 0 [(0, 0), (1, 0)], .offsetsFetched 0 [(0, [(0, 5)]), (1, [(0, 7)])],
    .build 0, .responds 0 [(1, 0)]]

def twoTopics : InsertionMap Nat (List Int) := ⟨[(0, [0]), (1, [0])], by decide⟩

/-- While the batch is processed, the second topic gets another partition. -/
def otherPartition : List (Event Nat) :=
  batchFetched ++
    [.install 2 ⟨[(1, [1]), (0, [0])], by decide⟩, .resolveOffset 0 7, .commit, .batchEnds 0]

/-- A rebalance that swaps partitions of a topic loses no record. -/
theorem found_otherPartition : ∃ final,
    run step (initial true 1 twoTopics) otherPartition = some final ∧
      final.offsets.manager.generationId = 2 ∧ final.Found := by
  obtain ⟨final, hrun, hfinal⟩ : ∃ final,
      run step (initial true 1 twoTopics) otherPartition = some final ∧
        final.offsets.manager.generationId = 2 :=
    Option.map_eq_some_iff.mp (by decide)
  exact ⟨final, hrun, hfinal, found_of_noneLost (by decide) hrun⟩

/-- The assignment that loses a topic lists no topic twice. -/
theorem nodup_firstTopic : ([(0, [0])].map Prod.fst : List Nat).Nodup := List.nodup_singleton 0

/-- While the batch is processed, another fetcher rejoins the group, and the second topic is
lost. -/
def lostTopic : List (Event Nat) :=
  batchFetched ++ [.install 2 ⟨[(0, [0])], nodup_firstTopic⟩, .resolveOffset 0 7]

/-- A rebalance that takes a topic away makes a lookup fail. -/
theorem misses_lostTopic : ∃ final,
    run step (initial true 1 twoTopics) lostTopic = some final ∧ final.offsets.misses = [1] ∧
      ¬ final.Found := by
  refine ⟨_, rfl, rfl, fun hfound => ?_⟩
  cases hfound

end GroupOffsets

end KafkaJs.Consumer
