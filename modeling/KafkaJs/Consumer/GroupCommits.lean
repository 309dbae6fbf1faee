import KafkaJs.Consumer.GroupOffsets

/-!
# Commits across a rebalance

`commitOffsets` sends what the offset manager of the group has resolved, under the generation of
this offset manager. A batch outlives the offset manager it was fetched under, and so do the calls
of an earlier one, which share the map of committed offsets with it. `strays_staleBatch` is a run
in which a batch of a lost partition is committed in the new generation. `within_of_current` says
that every commit has only partitions that are assigned in its generation, and offsets that come
from this generation, in every run in which no batch resolves an offset, and no answer arrives,
in a later generation than its own.
-/

namespace KafkaJs.Consumer

open Data Execution

variable {τ : Type} [DecidableEq τ]

namespace Offsets

/-- The generations with their assignments, in the order of their offset managers. -/
def granted (offsets : Offsets τ) : List (Int × InsertionMap τ (List Int)) :=
  offsets.managers.map fun manager => (manager.generationId, manager.memberAssignment)

/-- All positions and all committed offsets have a property. -/
structure Within (P : τ → Int → Int → Prop) (offsets : Offsets τ) : Prop where
  resolved : ∀ topic partitions, offsets.manager.resolvedOffsets.get? topic = some partitions →
    ∀ partition offset, partitions.get? partition = some (some offset) → P topic partition offset
  committed : ∀ topic partition offset, offsets.committedOffset topic partition = some offset →
    P topic partition offset

/-- What the operations other than a new offset manager preserve. -/
structure Stays (P : τ → Int → Int → Prop) (offsets next : Offsets τ) : Prop where
  granted : next.granted = offsets.granted
  within : Within P offsets → Within P next

variable {P Q : τ → Int → Int → Prop} {offsets next last : Offsets τ} {topic : τ}

/-- Offsets that do not change stay. -/
theorem Stays.refl (offsets : Offsets τ) : Stays P offsets offsets := ⟨rfl, id⟩

/-- Staying twice is staying. -/
theorem Stays.trans (first : Stays P offsets next) (second : Stays P next last) :
    Stays P offsets last :=
  ⟨second.granted.trans first.granted, fun h => second.within (first.within h)⟩

/-- A weaker property holds of the same offsets. -/
theorem Within.mono (h : Within P offsets)
    (hmono : ∀ topic partition offset, P topic partition offset → Q topic partition offset) :
    Within Q offsets where
  resolved topic partitions hpartitions partition offset hoffset :=
    hmono _ _ _ (h.resolved topic partitions hpartitions partition offset hoffset)
  committed topic partition offset hoffset :=
    hmono _ _ _ (h.committed topic partition offset hoffset)

omit [DecidableEq τ] in
/-- The generation of the group is the last one granted. -/
theorem getLast?_granted (offsets : Offsets τ) :
    offsets.granted.getLast? =
      some (offsets.manager.generationId, offsets.manager.memberAssignment) := by
  simp [granted, managers]

/-- What stays keeps its generation. -/
theorem Stays.generationId (h : Stays P offsets next) :
    next.manager.generationId = offsets.manager.generationId := by
  have hlast : next.granted.getLast? = offsets.granted.getLast? := by rw [h.granted]
  rw [getLast?_granted, getLast?_granted] at hlast
  exact congrArg Prod.fst (Option.some.inj hlast)

/-! ## What every operation preserves -/

/-- Storing resolved offsets grants no assignment. -/
theorem granted_setResolved (offsets : Offsets τ) (topic : τ)
    (partitions : InsertionMap Int (Option Int)) :
    (offsets.setResolved topic partitions).granted = offsets.granted := by
  simp [granted, managers, setResolved]

/-- A miss changes no offset. -/
theorem stays_miss (offsets : Offsets τ) (topic : τ) : Stays P offsets (offsets.miss topic) :=
  ⟨rfl, fun h => ⟨h.resolved, h.committed⟩⟩

/-- A position is stored, none or one with the property. -/
theorem stays_setPosition {partitions : InsertionMap Int (Option Int)}
    (hpartitions : offsets.manager.resolvedOffsets.get? topic = some partitions) (partition : Int)
    {position : Option Int}
    (hposition : Within P offsets → ∀ offset ∈ position, P topic partition offset) :
    Stays P offsets (offsets.setResolved topic (partitions.set partition position)) where
  granted := granted_setResolved offsets topic _
  within h :=
    { resolved := by
        intro other found hfound place offset hoffset
        have hget : (offsets.manager.resolvedOffsets.set topic
            (partitions.set partition position)).get? other = some found := hfound
        rw [InsertionMap.get?_set] at hget
        split at hget
        · next hother =>
            cases hget
            rw [InsertionMap.get?_set] at hoffset
            subst hother
            split at hoffset
            · next hplace =>
                subst hplace
                exact hposition h offset (Option.some.inj hoffset)
            · exact h.resolved other partitions hpartitions place offset hoffset
        · exact h.resolved other found hget place offset hoffset
      committed := h.committed }

/-- Resolving an offset that has the property. -/
theorem stays_resolve (topic : τ) (partition : Int) {position : Option Int}
    (hposition : Within P offsets → ∀ offset ∈ position, P topic partition offset) :
    Stays P offsets (offsets.resolve topic partition position) := by
  unfold resolve
  split
  · exact stays_miss offsets topic
  · next partitions hpartitions => exact stays_setPosition hpartitions partition hposition

/-- Resetting an offset leaves none behind. -/
theorem stays_reset (offsets : Offsets τ) (topic : τ) (partition : Int) :
    Stays P offsets (offsets.reset topic partition) := by
  unfold reset
  split
  · exact stays_miss offsets topic
  · next committed hcommitted =>
      refine stays_resolve topic partition fun h offset hoffset => h.committed topic partition _ ?_
      rw [committedOffset, hcommitted]
      exact hoffset

/-- Asking for the next offset leaves the positions alone. -/
theorem stays_nextOffset {partition offset : Int}
    (h : offsets.nextOffset topic partition = some (next, offset)) : Stays P offsets next := by
  obtain rfl | ⟨partitions, hpartitions, rfl⟩ := nextOffset_cases h
  · exact Stays.refl _
  · exact stays_setPosition hpartitions partition fun hwithin offset hoffset =>
      hwithin.committed topic partition offset hoffset

/-- Building the requests of a fetch leaves the positions alone. -/
theorem stays_buildRequests (offsets : Offsets τ) (paused : List (τ × Int))
    (topicPartitions : List (τ × List Int)) :
    Stays P offsets (buildRequests paused offsets topicPartitions).1 :=
  of_buildRequests (fun _ _ _ _ _ h _ hnext => h.trans (stays_nextOffset hnext))
    (fun current topic _ h _ _ => h.trans (stays_miss current topic)) (Stays.refl offsets)

/-- The committed offset of a partition is removed. -/
theorem stays_uncommit {committed : InsertionMap Int Int}
    (hcommitted : offsets.committedOffsets.get? topic = some committed) (partition : Int) :
    Stays P offsets { offsets with
      committedOffsets := offsets.committedOffsets.set topic (committed.delete partition) } where
  granted := rfl
  within h :=
    { resolved := h.resolved
      committed := by
        intro other place offset hoffset
        refine h.committed other place offset ?_
        simp only [committedOffset, InsertionMap.get?_set] at hoffset ⊢
        split at hoffset
        · next hother =>
            rw [Option.bind_some, InsertionMap.get?_delete] at hoffset
            split at hoffset
            · cases hoffset
            · rw [hother, hcommitted]
              exact hoffset
        · exact hoffset }

/-- What is resolved after an unresolve was resolved before. -/
theorem resolved_unresolve {manager : Manager τ} {first : τ} {place : Int}
    {partitions : InsertionMap Int (Option Int)} {partition offset : Int}
    (h : (unresolve manager first place).resolvedOffsets.get? topic = some partitions)
    (hoffset : partitions.get? partition = some (some offset)) :
    ∃ found, manager.resolvedOffsets.get? topic = some found ∧
      found.get? partition = some (some offset) := by
  unfold unresolve at h
  split at h
  · exact ⟨partitions, h, hoffset⟩
  · next old hold =>
      have hget : (manager.resolvedOffsets.set first (old.delete place)).get? topic =
          some partitions := h
      rw [InsertionMap.get?_set] at hget
      split at hget
      · next htopic =>
          cases hget
          rw [InsertionMap.get?_delete] at hoffset
          split at hoffset
          · cases hoffset
          · exact ⟨old, by rw [htopic, hold], hoffset⟩
      · exact ⟨partitions, hget, hoffset⟩

/-- An unresolve keeps the generation and the assignment. -/
theorem grant_unresolve (manager : Manager τ) (topic : τ) (partition : Int) :
    ((unresolve manager topic partition).generationId,
      (unresolve manager topic partition).memberAssignment) =
        (manager.generationId, manager.memberAssignment) := by
  unfold unresolve
  split <;> rfl

/-- Clearing offsets adds none. -/
theorem stays_clearOffsets (offsets : Offsets τ) (index : Nat) (topic : τ) (partition : Int) :
    Stays P offsets (offsets.clearOffsets index topic partition).1 := by
  unfold clearOffsets
  split
  · exact stays_miss offsets topic
  · next committed hcommitted =>
      have huncommit : Stays P offsets _ := stays_uncommit hcommitted partition
      dsimp only
      split
      · split
        · refine huncommit.trans ⟨?_, fun h => ⟨?_, h.committed⟩⟩
          · simp only [granted, managers, List.map_append, List.map_cons, List.map_nil,
              grant_unresolve]
          · intro other partitions hpartitions place offset hoffset
            obtain ⟨found, hfound, hplace⟩ := resolved_unresolve hpartitions hoffset
            exact h.resolved other found hfound place offset hplace
        · refine huncommit.trans ⟨?_, fun h => ⟨h.resolved, h.committed⟩⟩
          have hmodify : ∀ managers : List (Manager τ),
              (managers.modify index fun manager => unresolve manager topic partition).map
                (fun manager => (manager.generationId, manager.memberAssignment)) =
              managers.map fun manager => (manager.generationId, manager.memberAssignment) := by
            intro managers
            refine List.ext_getElem? fun place => ?_
            simp only [List.getElem?_map, List.getElem?_modify]
            cases managers[place]? with
            | none => rfl
            | some manager =>
                simp only [Option.map_some]
                split
                · exact congrArg some (grant_unresolve manager topic partition)
                · rfl
          simp only [granted, managers, List.map_append, hmodify]
      · exact huncommit.trans (stays_miss _ topic)

omit [DecidableEq τ] in
/-- What is found after marks was marked or there before. -/
theorem get?_foldl_set {marked : List (Int × Int)} {base : InsertionMap Int Int}
    {partition offset : Int}
    (h : (marked.foldl (fun partitions mark => partitions.set mark.1 mark.2) base).get? partition =
      some offset) : (partition, offset) ∈ marked ∨ base.get? partition = some offset := by
  induction marked generalizing base with
  | nil => exact .inr h
  | cons mark marked ih =>
      cases ih h with
      | inl hmem => exact .inl (List.mem_cons_of_mem _ hmem)
      | inr hbase =>
          rw [InsertionMap.get?_set] at hbase
          split at hbase
          · next hpartition =>
              cases hbase
              rw [hpartition]
              exact .inl List.mem_cons_self
          · exact .inr hbase

/-- Marked offsets with the property. -/
theorem stays_markTopic {marked : List (Int × Int)}
    (hmarked : ∀ mark ∈ marked, P topic mark.1 mark.2) :
    Stays P offsets (offsets.markTopic topic marked) where
  granted := rfl
  within h :=
    { resolved := h.resolved
      committed := by
        intro other partition offset hoffset
        simp only [committedOffset, markTopic, InsertionMap.get?_set] at hoffset
        split at hoffset
        · next hother =>
            subst hother
            cases get?_foldl_set hoffset with
            | inl hmem => exact hmarked _ hmem
            | inr hbase =>
                refine h.committed other partition offset ?_
                rw [committedOffset]
                cases hold : offsets.committedOffsets.get? other with
                | none =>
                    rw [hold] at hbase
                    cases hbase
                | some partitions =>
                    rw [hold] at hbase
                    exact hbase
        · exact h.committed other partition offset hoffset }

/-- Marking offsets that have the property. -/
theorem stays_mark {topics : List (τ × List (Int × Int))}
    (hmarked : ∀ entry ∈ topics, ∀ mark ∈ entry.2, P entry.1 mark.1 mark.2) :
    Stays P offsets (offsets.mark topics) := by
  induction topics generalizing offsets with
  | nil => exact Stays.refl offsets
  | cons entry topics ih =>
      have hfirst : Stays P offsets (offsets.markTopic entry.1 entry.2) :=
        stays_markTopic (hmarked entry List.mem_cons_self)
      exact hfirst.trans (ih fun entry hmem => hmarked entry (List.mem_cons_of_mem _ hmem))

omit [DecidableEq τ] in
/-- A changed offset is that of a position. -/
theorem mem_of_changedOffsets {committed : InsertionMap Int Int}
    {positions : List (Int × Option Int)} {changed : List (Int × Int)}
    (h : @changedOffsets τ committed positions = .ok changed) {partition offset : Int}
    (hmem : (partition, offset) ∈ changed) : (partition, some offset) ∈ positions := by
  induction positions generalizing changed with
  | nil =>
      cases h
      cases hmem
  | cons entry positions ih =>
      obtain ⟨first, position⟩ := entry
      unfold changedOffsets at h
      split at h
      · exact List.mem_cons_of_mem _ (ih h hmem)
      · cases position with
        | none => cases h
        | some found =>
            dsimp only at h
            cases hrest : @changedOffsets τ committed positions with
            | error thrown =>
                rw [hrest] at h
                cases h
            | ok rest =>
                rw [hrest] at h
                cases h
                split at hmem
                · cases List.mem_cons.mp hmem with
                  | inl hhead =>
                      cases hhead
                      exact List.mem_cons_self
                  | inr htail => exact List.mem_cons_of_mem _ (ih hrest htail)
                · exact List.mem_cons_of_mem _ (ih hrest hmem)

/-- What is committed has been resolved. -/
theorem Within.topicOffsets (h : Within P offsets) {changed : List (Int × Int)}
    (hchanged : offsets.topicOffsets topic = .ok changed) :
    ∀ mark ∈ changed, P topic mark.1 mark.2 := by
  intro mark hmem
  unfold Offsets.topicOffsets at hchanged
  split at hchanged
  · cases hchanged
  · next partitions hpartitions =>
      split at hchanged
      · cases hchanged
        cases hmem
      · split at hchanged
        · cases hchanged
        · have hentry := mem_of_changedOffsets hchanged hmem
          exact h.resolved topic partitions hpartitions _ _ (InsertionMap.mem_entries_iff.mp hentry)

/-- The offsets that are listed for a commit have the property of those that are held. -/
theorem Within.uncommittedOffsets (h : Within P offsets) {topics : List τ}
    {uncommitted : List (τ × List (Int × Int))}
    (huncommitted : offsets.uncommittedOffsets topics = .ok uncommitted) :
    ∀ entry ∈ uncommitted, ∀ mark ∈ entry.2, P entry.1 mark.1 mark.2 := by
  induction topics generalizing uncommitted with
  | nil =>
      cases huncommitted
      intro entry hmem
      cases hmem
  | cons topic topics ih =>
      rw [Offsets.uncommittedOffsets] at huncommitted
      cases hchanged : offsets.topicOffsets topic with
      | error thrown =>
          rw [hchanged] at huncommitted
          cases huncommitted
      | ok changed =>
          cases hrest : offsets.uncommittedOffsets topics with
          | error thrown =>
              rw [hchanged, hrest] at huncommitted
              cases huncommitted
          | ok rest =>
              rw [hchanged, hrest] at huncommitted
              cases huncommitted
              intro entry hmem
              split at hmem
              · exact ih hrest entry hmem
              · cases List.mem_cons.mp hmem with
                | inl hhead =>
                    subst hhead
                    exact h.topicOffsets hchanged
                | inr htail => exact ih hrest entry htail

/-- An index of topics has no offsets. -/
theorem committedOffset_indexTopics (topics : List τ) (topic : τ) (partition : Int) :
    ((indexTopics topics : InsertionMap τ (InsertionMap Int Int)).get? topic).bind
      (fun partitions => partitions.get? partition) = none := by
  rw [GroupOffsets.get?_indexTopics]
  split <;> rfl

/-- A new offset manager has resolved nothing, and nothing is committed. -/
theorem Within.of_new {offsets : Offsets τ} {topics : List τ}
    (hresolved : offsets.manager.resolvedOffsets = indexTopics topics)
    (hcommitted : offsets.committedOffsets = indexTopics topics) : Within P offsets where
  resolved topic partitions hpartitions partition offset hoffset := by
    rw [hresolved, GroupOffsets.get?_indexTopics] at hpartitions
    split at hpartitions
    · cases hpartitions
      cases hoffset
    · cases hpartitions
  committed topic partition offset hoffset := by
    rw [committedOffset, hcommitted, committedOffset_indexTopics] at hoffset
    cases hoffset

end Offsets

namespace GroupOffsets

open Offsets

/-! ## What should hold -/

/-- The partition is assigned to the member in the generation. -/
def Assigned (state : GroupOffsets τ) (generationId : Int) (topic : τ) (partition : Int) : Prop :=
  ∃ manager ∈ state.offsets.managers, manager.generationId = generationId ∧
    manager.isAssigned topic partition = true

/-- `Assigned` is decidable by going through the offset managers. -/
instance (state : GroupOffsets τ) (generationId : Int) (topic : τ) (partition : Int) :
    Decidable (state.Assigned generationId topic partition) :=
  inferInstanceAs (Decidable (∃ manager ∈ state.offsets.managers,
    manager.generationId = generationId ∧ manager.isAssigned topic partition = true))

/-- The offset was fetched in the generation, or it is at most one plus an offset that a batch of
the generation has resolved. -/
def Origin (state : GroupOffsets τ) (generationId : Int) (topic : τ) (partition offset : Int) :
    Prop :=
  ⟨generationId, topic, partition, offset⟩ ∈ state.fetched ∨
    ∃ resolution ∈ state.resolved, resolution.generationId = generationId ∧
      resolution.topic = topic ∧ resolution.partition = partition ∧ offset ≤ resolution.offset + 1

/-- Every partition and every offset of a commit come from the generation that it carries. -/
def FromGeneration (state : GroupOffsets τ) (commit : OffsetCommit τ) : Prop :=
  ∀ entry ∈ commit.topics, ∀ mark ∈ entry.2,
    state.Assigned commit.generationId entry.1 mark.1 ∧
      state.Origin commit.generationId entry.1 mark.1 mark.2

/-- Every commit stays within its generation. -/
def WithinGeneration (state : GroupOffsets τ) : Prop :=
  ∀ commit ∈ state.sent, state.FromGeneration commit

/-- The generation of the offsets that a fetch waits for. -/
def resolvingGeneration (fetch : GroupFetch τ) : Option Int :=
  match fetch.phase with
  | .resolving generationId _ => some generationId
  | _ => none

/-- The batches that resolve offsets, and the answers to OffsetFetch and OffsetCommit, are of the
generation of the offset manager. Without auto-commit, a seek resolves its own offset. -/
def Current (state : GroupOffsets τ) : Event τ → Prop
  | .resolveOffset batch _ =>
      ∀ found ∈ state.batches[batch]?, found.generationId = state.offsets.manager.generationId
  | .offsetsFetched index _ =>
      ∀ generationId ∈ (state.fetches[index]?).bind resolvingGeneration,
        generationId = state.offsets.manager.generationId
  | .commitAnswered index =>
      ∀ commit ∈ state.commits[index]?,
        commit.generationId = state.offsets.manager.generationId
  | .seek _ _ _ => state.autoCommit = true
  | _ => True

/-- `Current` is decidable event by event. -/
instance (state : GroupOffsets τ) : ∀ event, Decidable (Current state event)
  | .resolveOffset batch _ =>
      inferInstanceAs (Decidable (∀ found ∈ state.batches[batch]?,
        found.generationId = state.offsets.manager.generationId))
  | .offsetsFetched index _ =>
      inferInstanceAs (Decidable (∀ generationId ∈ (state.fetches[index]?).bind resolvingGeneration,
        generationId = state.offsets.manager.generationId))
  | .commitAnswered index =>
      inferInstanceAs (Decidable (∀ commit ∈ state.commits[index]?,
        commit.generationId = state.offsets.manager.generationId))
  | .seek _ _ _ => inferInstanceAs (Decidable (state.autoCommit = true))
  | .fetch | .refreshed _ _ | .seekAnswered _ | .goesOn _ | .build _ | .responds _ _
  | .outOfRange _ _ _ | .defaultAnswered _ | .fetchFails _ | .resetOffset _ | .batchEnds _
  | .commit | .commitFails _ | .pause _ | .install _ _ => isTrue trivial

/-! ## What every step preserves -/

/-- An offset of an assigned partition, in the generation of the offset manager. -/
def Covered (state : GroupOffsets τ) (topic : τ) (partition offset : Int) : Prop :=
  state.Assigned state.offsets.manager.generationId topic partition ∧
    state.Origin state.offsets.manager.generationId topic partition offset

/-- The partitions of a request are related to its generation. -/
def RequestHas (A : Int → τ → Int → Prop) : FetchPhase τ → Prop
  | .resolving generationId pendingPartitions =>
      ∀ place ∈ places pendingPartitions, A generationId place.1 place.2
  | .requesting generationId requests =>
      ∀ place ∈ requested requests, A generationId place.1 place.2
  | .refreshing | .seeking _ | .committing _ _ _ _ | .ready | .defaulting _ _ _ => True

/-- The invariant of a group whose batches and answers are of its generation. -/
structure Traced (state : GroupOffsets τ) : Prop where
  offsets : Within state.Covered state.offsets
  /-- A generation has one assignment. -/
  consistent : ∀ first ∈ state.offsets.granted, ∀ second ∈ state.offsets.granted,
    first.1 = second.1 → first.2 = second.2
  fetches : ∀ fetch ∈ state.fetches, RequestHas state.Assigned fetch.phase
  batches : ∀ batch ∈ state.batches,
    state.Assigned batch.generationId batch.topic batch.partition
  commits : ∀ commit ∈ state.commits, state.FromGeneration commit
  sent : ∀ commit ∈ state.sent, state.FromGeneration commit
  seeks : state.autoCommit = true ∨ ∀ place, state.seekOffset.get? place = none

variable {state next : GroupOffsets τ} {index : Nat}

/-- What was granted, fetched and resolved stays on record. -/
structure Grows (state next : GroupOffsets τ) : Prop where
  granted : state.offsets.granted ⊆ next.offsets.granted
  fetched : state.fetched ⊆ next.fetched
  resolved : state.resolved ⊆ next.resolved

/-- A state whose offsets stay grows when its records do. -/
theorem Grows.of_stays {P : τ → Int → Int → Prop} (h : Stays P state.offsets next.offsets)
    (hfetched : state.fetched ⊆ next.fetched) (hresolved : state.resolved ⊆ next.resolved) :
    Grows state next :=
  ⟨fun grant hmem => by rwa [h.granted], hfetched, hresolved⟩

/-- A partition is assigned in a generation if an assignment granted there lists it. -/
theorem assigned_iff {generationId : Int} {topic : τ} {partition : Int} :
    state.Assigned generationId topic partition ↔
      ∃ memberAssignment, (generationId, memberAssignment) ∈ state.offsets.granted ∧
        ((memberAssignment.get? topic).any fun partitions => partition ∈ partitions) = true := by
  constructor
  · rintro ⟨manager, hmem, rfl, hassigned⟩
    exact ⟨manager.memberAssignment, List.mem_map_of_mem hmem, hassigned⟩
  · rintro ⟨memberAssignment, hgranted, hassigned⟩
    obtain ⟨manager, hmem, heq⟩ := List.mem_map.mp hgranted
    cases heq
    exact ⟨manager, hmem, rfl, hassigned⟩

/-- An assignment is not forgotten. -/
theorem Grows.assigned (h : Grows state next) {generationId : Int} {topic : τ} {partition : Int}
    (hassigned : state.Assigned generationId topic partition) :
    next.Assigned generationId topic partition := by
  obtain ⟨memberAssignment, hgranted, hpartition⟩ := assigned_iff.mp hassigned
  exact assigned_iff.mpr ⟨memberAssignment, h.granted hgranted, hpartition⟩

omit [DecidableEq τ] in
/-- The origin of an offset is not forgotten. -/
theorem Grows.origin (h : Grows state next) {generationId : Int} {topic : τ}
    {partition offset : Int} (horigin : state.Origin generationId topic partition offset) :
    next.Origin generationId topic partition offset := by
  cases horigin with
  | inl hfetched => exact .inl (h.fetched hfetched)
  | inr hresolved =>
      obtain ⟨resolution, hmem, hresolution⟩ := hresolved
      exact .inr ⟨resolution, h.resolved hmem, hresolution⟩

/-- A commit from a generation remains one. -/
theorem Grows.fromGeneration (h : Grows state next) {commit : OffsetCommit τ}
    (hcommit : state.FromGeneration commit) : next.FromGeneration commit :=
  fun entry hentry mark hmark =>
    ⟨h.assigned (hcommit entry hentry mark hmark).1, h.origin (hcommit entry hentry mark hmark).2⟩

omit [DecidableEq τ] in
/-- A weaker property holds of the same request. -/
theorem RequestHas.mono {A B : Int → τ → Int → Prop} {phase : FetchPhase τ}
    (h : RequestHas A phase)
    (hmono : ∀ generationId topic partition, A generationId topic partition →
      B generationId topic partition) : RequestHas B phase := by
  cases phase with
  | resolving generationId pendingPartitions =>
      exact fun place hmem => hmono _ _ _ (h place hmem)
  | requesting generationId requests => exact fun place hmem => hmono _ _ _ (h place hmem)
  | refreshing | seeking | committing | ready | defaulting => trivial

/-- An offset that originates in the current generation is covered. -/
theorem covered_of_stays {P : τ → Int → Int → Prop} (h : Stays P state.offsets next.offsets)
    {topic : τ} {partition offset : Int}
    (hassigned : next.Assigned state.offsets.manager.generationId topic partition)
    (horigin : next.Origin state.offsets.manager.generationId topic partition offset) :
    next.Covered topic partition offset := by
  unfold Covered
  rw [h.generationId]
  exact ⟨hassigned, horigin⟩

/-- The current assignment counts as granted. -/
theorem assigned_current {topic : τ} {partition : Int}
    (h : state.offsets.manager.isAssigned topic partition = true) :
    state.Assigned state.offsets.manager.generationId topic partition :=
  ⟨state.offsets.manager, List.mem_append_right _ List.mem_cons_self, rfl, h⟩

/-- The offsets change within the generation. Fetches, batches and commits are old ones or are
assigned. -/
theorem Traced.of_stays (h : Traced state)
    (hstays : Stays next.Covered state.offsets next.offsets)
    (hfetched : state.fetched ⊆ next.fetched) (hresolved : state.resolved ⊆ next.resolved)
    (hfetches : ∀ fetch ∈ next.fetches, fetch ∈ state.fetches ∨ RequestHas next.Assigned fetch.phase)
    (hbatches : ∀ batch ∈ next.batches, batch ∈ state.batches ∨
      next.Assigned batch.generationId batch.topic batch.partition)
    (hcommits : ∀ commit ∈ next.commits, commit ∈ state.commits ∨ next.FromGeneration commit)
    (hsent : ∀ commit ∈ next.sent, commit ∈ state.sent ∨ next.FromGeneration commit)
    (hseeks : next.autoCommit = true ∨ ∀ place, next.seekOffset.get? place = none) :
    Traced next := by
  have hgrows : Grows state next := Grows.of_stays hstays hfetched hresolved
  exact
    { offsets := hstays.within (h.offsets.mono fun _ _ _ hcovered =>
        covered_of_stays hstays (hgrows.assigned hcovered.1) (hgrows.origin hcovered.2))
      consistent := by
        rw [hstays.granted]
        exact h.consistent
      fetches := fun fetch hmem => (hfetches fetch hmem).elim
        (fun hold => (h.fetches fetch hold).mono fun _ _ _ => hgrows.assigned) id
      batches := fun batch hmem => (hbatches batch hmem).elim
        (fun hold => hgrows.assigned (h.batches batch hold)) id
      commits := fun commit hmem => (hcommits commit hmem).elim
        (fun hold => hgrows.fromGeneration (h.commits commit hold)) id
      sent := fun commit hmem => (hsent commit hmem).elim
        (fun hold => hgrows.fromGeneration (h.sent commit hold)) id
      seeks := hseeks }

/-- A fetch goes on or ends, and the offsets change within the generation. -/
theorem Traced.setFetch {fetch : Option (GroupFetch τ)} (h : Traced state)
    (hstays : Stays next.Covered state.offsets next.offsets)
    (hfetched : state.fetched ⊆ next.fetched)
    (hsame : next.resolved = state.resolved ∧ next.fetches = state.fetches ∧
      next.batches = state.batches ∧ next.commits = state.commits ∧ next.sent = state.sent)
    (hseeks : next.autoCommit = true ∨ ∀ place, next.seekOffset.get? place = none)
    (hassigned : ∀ found ∈ fetch, RequestHas next.Assigned found.phase) :
    Traced (next.setFetch index fetch) := by
  obtain ⟨hresolved, hfetches, hbatches, hcommits, hsent⟩ := hsame
  have hnext : Traced next :=
    h.of_stays hstays hfetched (by rw [hresolved]; exact List.Subset.refl _)
      (fun _ hmem => .inl (by rwa [← hfetches])) (fun _ hmem => .inl (by rwa [← hbatches]))
      (fun _ hmem => .inl (by rwa [← hcommits])) (fun _ hmem => .inl (by rwa [← hsent])) hseeks
  cases fetch with
  | none =>
      exact ⟨hnext.offsets, hnext.consistent,
        fun fetch hmem => hnext.fetches fetch (List.mem_of_mem_eraseIdx hmem), hnext.batches,
        hnext.commits, hnext.sent, hnext.seeks⟩
  | some fetch =>
      refine ⟨hnext.offsets, hnext.consistent, fun found hmem => ?_, hnext.batches,
        hnext.commits, hnext.sent, hnext.seeks⟩
      cases List.mem_or_eq_of_mem_set hmem with
      | inl hold => exact hnext.fetches found hold
      | inr hnew =>
          subst hnew
          exact hassigned _ rfl

/-- What the loop of `seekOffsets` asks the coordinator for is assigned. -/
theorem isAssigned_pendingPartitions {offsets : Offsets τ} :
    ∀ place ∈ places offsets.pendingPartitions,
      offsets.manager.isAssigned place.1 place.2 = true := by
  rintro ⟨topic, partition⟩ hmem
  obtain ⟨partitions, hpending, hpartition⟩ := mem_places.mp hmem
  obtain ⟨entry, hentry, heq⟩ := List.mem_map.mp (List.mem_filter.mp hpending).1
  cases heq
  exact Manager.isAssigned_iff.mpr ⟨entry.2, hentry, (List.mem_filter.mp hpartition).1⟩

/-- Seeking on fetch stays, and leaves seeks behind only where offsets are committed automatically.
-/
theorem stays_seekOffsets {P : τ → Int → Int → Prop} {autoCommit : Bool} {offsets : Offsets τ}
    {seekOffset : InsertionMap (τ × Int) Int}
    (hseeks : autoCommit = true ∨ ∀ place, seekOffset.get? place = none) (todo : List (τ × Int)) :
    Stays P offsets (seekOffsets autoCommit offsets seekOffset todo).1 ∧
      (autoCommit = true ∨
        ∀ place, (seekOffsets autoCommit offsets seekOffset todo).2.1.get? place = none) ∧
      ∀ phase ∈ (seekOffsets autoCommit offsets seekOffset todo).2.2,
        RequestHas (fun generationId topic partition =>
          generationId = offsets.manager.generationId ∧
            offsets.manager.isAssigned topic partition = true) phase := by
  induction todo with
  | nil =>
      rw [seekOffsets]
      split
      · exact ⟨stays_miss offsets _, hseeks, fun phase hphase => by cases hphase⟩
      · refine ⟨Stays.refl offsets, hseeks, fun phase hphase => ?_⟩
        dsimp only at hphase
        split at hphase
        · cases hphase
          trivial
        · cases hphase
          exact fun place hmem => ⟨rfl, isAssigned_pendingPartitions place hmem⟩
  | cons place todo ih =>
      obtain ⟨topic, partition⟩ := place
      rw [seekOffsets]
      split
      · exact ih
      · next offset hoffset =>
          -- a pending seek means that the group commits
          have hautoCommit : autoCommit = true := by
            cases hseeks with
            | inl hautoCommit => exact hautoCommit
            | inr hnone =>
                rw [hnone] at hoffset
                cases hoffset
          dsimp only
          split
          · refine ⟨Stays.refl offsets, .inl hautoCommit, fun phase hphase => ?_⟩
            cases hphase
            trivial
          · rw [if_neg (by simp [hautoCommit])]
            refine ⟨Stays.refl offsets, .inl hautoCommit, fun phase hphase => ?_⟩
            cases hphase
            trivial

/-- Going on with the seeks of a fetch. -/
theorem Traced.seekFrom (h : Traced state) (topicPartitions : List (τ × List Int))
    (todo : List (τ × Int)) : Traced (state.seekFrom index topicPartitions todo) := by
  obtain ⟨hstays, hseeks, hassigned⟩ := @stays_seekOffsets _ _ _ _ state.offsets _ h.seeks todo
  let result := seekOffsets state.autoCommit state.offsets state.seekOffset todo
  show Traced (GroupOffsets.setFetch { state with offsets := result.1, seekOffset := result.2.1 }
    index (result.2.2.map (GroupFetch.mk topicPartitions)))
  refine h.setFetch hstays (List.Subset.refl _) ⟨rfl, rfl, rfl, rfl, rfl⟩ hseeks
    fun found hfound => ?_
  obtain ⟨phase, hphase, rfl⟩ := Option.map_eq_some_iff.mp hfound
  -- what the offset manager asks for is assigned now
  have hstate : RequestHas state.Assigned phase := (hassigned phase hphase).mono
    fun generationId topic partition hnow => by
      rw [hnow.1]
      exact assigned_current hnow.2
  have hgrows : Grows state { state with offsets := result.1, seekOffset := result.2.1 } :=
    Grows.of_stays hstays (List.Subset.refl _) (List.Subset.refl _)
  exact hstate.mono fun _ _ _ => hgrows.assigned

/-- Building the request of a fetch. -/
theorem Traced.request (h : Traced state) (topicPartitions : List (τ × List Int)) :
    Traced (state.request index topicPartitions) := by
  let result := buildRequests state.paused state.offsets topicPartitions
  have hstays : Stays (Covered { state with offsets := result.1 }) state.offsets result.1 :=
    stays_buildRequests state.offsets state.paused topicPartitions
  show Traced (GroupOffsets.setFetch { state with offsets := result.1 } index _)
  refine h.setFetch hstays (List.Subset.refl _) ⟨rfl, rfl, rfl, rfl, rfl⟩ h.seeks
    fun found hfound => ?_
  split at hfound
  · cases hfound
  · cases hfound
  · next requests hrequests =>
      cases hfound
      obtain ⟨built, hbuilt, rfl⟩ := Option.map_eq_some_iff.mp hrequests
      have hgrows : Grows state { state with offsets := result.1 } :=
        Grows.of_stays hstays (List.Subset.refl _) (List.Subset.refl _)
      rintro ⟨topic, partition⟩ hmem
      obtain ⟨entries, hentries, hpartition⟩ := mem_requested.mp hmem
      have hrequested : (topic, partition) ∈ requested built :=
        mem_requested.mpr ⟨entries, (List.mem_filter.mp hentries).1, hpartition⟩
      exact hgrows.assigned (assigned_current (requested_of_buildRequests hbuilt hrequested).2)

/-- The offsets that the coordinator has answered, in the generation of the offset manager. -/
theorem Traced.offsetsFetched (h : Traced state) {topicPartitions : List (τ × List Int)}
    {pendingPartitions : List (τ × List Int)} {offsets : List (τ × List (Int × Int))}
    (hfetch : state.fetches[index]? =
      some ⟨topicPartitions, .resolving state.offsets.manager.generationId pendingPartitions⟩)
    (hrequested : ∀ place ∈ requested offsets, place ∈ places pendingPartitions) :
    Traced (GroupOffsets.setFetch { state with
      offsets := state.offsets.mark offsets
      fetched := state.fetched ++ answered state.offsets.manager.generationId offsets } index
        (some ⟨topicPartitions, .ready⟩)) := by
  have hpending := h.fetches _ (List.mem_of_getElem? hfetch)
  have hany : Stays (fun _ _ _ => True) state.offsets (state.offsets.mark offsets) :=
    stays_mark fun _ _ _ _ => trivial
  have hgrows : Grows state { state with
      offsets := state.offsets.mark offsets
      fetched := state.fetched ++ answered state.offsets.manager.generationId offsets } :=
    Grows.of_stays hany (List.subset_append_left _ _) (List.Subset.refl _)
  refine h.setFetch (stays_mark fun entry hentry mark hmark => ?_) (List.subset_append_left _ _)
    ⟨rfl, rfl, rfl, rfl, rfl⟩ h.seeks fun found hfound => ?_
  · have hplace : (entry.1, mark) ∈ places offsets := mem_places.mpr ⟨entry.2, hentry, hmark⟩
    have hassigned : state.Assigned state.offsets.manager.generationId entry.1 mark.1 :=
      hpending _ (hrequested (entry.1, mark.1) (List.mem_map.mpr ⟨_, hplace, rfl⟩))
    exact covered_of_stays hany (hgrows.assigned hassigned)
      (.inl (List.mem_append_right _ (List.mem_map.mpr ⟨_, hplace, rfl⟩)))
  · cases hfound
    trivial

/-- A batch of the generation of the offset manager resolves an offset. -/
theorem Traced.resolveOffset (h : Traced state) {batch : FetchedBatch τ}
    (hmem : batch ∈ state.batches)
    (hcurrent : batch.generationId = state.offsets.manager.generationId) (offset : Int) :
    Traced { state with
      offsets := state.offsets.resolve batch.topic batch.partition (some (offset + 1))
      resolved := state.resolved ++
        [⟨batch.generationId, batch.topic, batch.partition, offset⟩] } := by
  have hany : Stays (fun _ _ _ => True) state.offsets
      (state.offsets.resolve batch.topic batch.partition (some (offset + 1))) :=
    stays_resolve batch.topic batch.partition fun _ _ _ => trivial
  have hgrows : Grows state { state with
      offsets := state.offsets.resolve batch.topic batch.partition (some (offset + 1))
      resolved := state.resolved ++
        [⟨batch.generationId, batch.topic, batch.partition, offset⟩] } :=
    Grows.of_stays hany (List.Subset.refl _) (List.subset_append_left _ _)
  refine h.of_stays (stays_resolve _ _ fun _ position hposition => ?_) (List.Subset.refl _)
    (List.subset_append_left _ _) (fun _ => .inl) (fun _ => .inl) (fun _ => .inl)
    (fun _ => .inl) h.seeks
  cases hposition
  have hassigned := h.batches batch hmem
  rw [hcurrent] at hassigned
  exact covered_of_stays hany (hgrows.assigned hassigned)
    (.inr ⟨_, List.mem_append_right _ List.mem_cons_self, hcurrent, rfl, rfl, Int.le_refl _⟩)

/-- The answer to a commit of the generation of the offset manager. -/
theorem Traced.commitAnswered (h : Traced state) {payload : OffsetCommit τ}
    (hpayload : state.commits[index]? = some payload)
    (hcurrent : payload.generationId = state.offsets.manager.generationId) :
    Traced { state with
      offsets := state.offsets.mark payload.topics
      commits := state.commits.eraseIdx index } := by
  have hcommit := h.commits payload (List.mem_of_getElem? hpayload)
  have hany : Stays (fun _ _ _ => True) state.offsets (state.offsets.mark payload.topics) :=
    stays_mark fun _ _ _ _ => trivial
  have hgrows : Grows state { state with
      offsets := state.offsets.mark payload.topics
      commits := state.commits.eraseIdx index } :=
    Grows.of_stays hany (List.Subset.refl _) (List.Subset.refl _)
  refine h.of_stays (stays_mark fun entry hentry mark hmark => ?_) (List.Subset.refl _)
    (List.Subset.refl _) (fun _ => .inl) (fun _ => .inl)
    (fun commit hmem => .inl (List.mem_of_mem_eraseIdx hmem)) (fun _ => .inl) h.seeks
  obtain ⟨hassigned, horigin⟩ := hcommit entry hentry mark hmark
  rw [hcurrent] at hassigned horigin
  exact covered_of_stays hany (hgrows.assigned hassigned) (hgrows.origin horigin)

/-- At first nothing was fetched and nothing committed. -/
theorem Traced.initial (autoCommit : Bool) (generationId : Int)
    (memberAssignment : InsertionMap τ (List Int)) :
    Traced (GroupOffsets.initial autoCommit generationId memberAssignment) where
  offsets := Within.of_new rfl rfl
  consistent first hfirst second hsecond _ := by
    rw [List.mem_singleton.mp hfirst, List.mem_singleton.mp hsecond]
  fetches fetch hmem := by cases hmem
  batches batch hmem := by cases hmem
  commits commit hmem := by cases hmem
  sent commit hmem := by cases hmem
  seeks := .inr fun place => rfl

/-- A new offset manager begins without offsets. -/
theorem Traced.install (h : Traced state) {generationId : Int}
    {memberAssignment : InsertionMap τ (List Int)}
    (honce : ∀ manager ∈ state.offsets.managers, manager.generationId = generationId →
      manager.memberAssignment = memberAssignment) :
    Traced { state with offsets := state.offsets.install generationId memberAssignment } := by
  have hgranted : (state.offsets.install generationId memberAssignment).granted =
      state.offsets.granted ++ [(generationId, memberAssignment)] := by
    simp [granted, managers, Offsets.install, Manager.create]
  -- the new manager is one more, and nothing that was granted is taken back
  have hgrows : Grows state
      { state with offsets := state.offsets.install generationId memberAssignment } :=
    ⟨fun grant hmem => by
      show grant ∈ (state.offsets.install generationId memberAssignment).granted
      rw [hgranted]
      exact List.mem_append_left _ hmem, List.Subset.refl _, List.Subset.refl _⟩
  -- the condition: a generation that is installed again has the same assignment
  have hold : ∀ grant ∈ state.offsets.granted, grant.1 = generationId →
      grant.2 = memberAssignment := by
    intro grant hmem hgeneration
    obtain ⟨manager, hmanager, rfl⟩ := List.mem_map.mp hmem
    exact honce manager hmanager hgeneration
  refine
    { offsets := Within.of_new rfl rfl
      consistent := ?_
      fetches := fun fetch hmem => (h.fetches fetch hmem).mono fun _ _ _ => hgrows.assigned
      batches := fun batch hmem => hgrows.assigned (h.batches batch hmem)
      commits := fun commit hmem => hgrows.fromGeneration (h.commits commit hmem)
      sent := fun commit hmem => hgrows.fromGeneration (h.sent commit hmem)
      seeks := h.seeks }
  show ∀ first ∈ (state.offsets.install generationId memberAssignment).granted,
    ∀ second ∈ (state.offsets.install generationId memberAssignment).granted,
      first.1 = second.1 → first.2 = second.2
  rw [hgranted]
  intro first hfirst second hsecond heq
  cases List.mem_append.mp hfirst with
  | inl hfirst =>
      cases List.mem_append.mp hsecond with
      | inl hsecond => exact h.consistent first hfirst second hsecond heq
      | inr hsecond =>
          rw [List.mem_singleton.mp hsecond] at heq ⊢
          exact hold first hfirst heq
  | inr hfirst =>
      rw [List.mem_singleton.mp hfirst] at heq ⊢
      cases List.mem_append.mp hsecond with
      | inl hsecond => exact (hold second hsecond heq.symm).symm
      | inr hsecond => rw [List.mem_singleton.mp hsecond]

/-- What `commitOffsets` sends. -/
theorem Traced.fromGeneration (h : Traced state) {topics : List (τ × List (Int × Int))}
    (hok : state.offsets.uncommittedOffsets state.offsets.manager.memberAssignment.keys =
      .ok topics) :
    state.FromGeneration ⟨state.offsets.manager.generationId, topics⟩ :=
  fun entry hentry mark hmark => h.offsets.uncommittedOffsets hok entry hentry mark hmark

/-- Every event that is current keeps the offsets traced. -/
theorem Traced.step {event : Event τ} (h : Traced state) (hcurrent : Current state event)
    (hfires : Fires state event next) : Traced next := by
  cases hfires with
  | fetch =>
      refine h.of_stays (Stays.refl _) (List.Subset.refl _) (List.Subset.refl _)
        (fun fetch hmem => ?_) (fun _ => .inl) (fun _ => .inl) (fun _ => .inl) h.seeks
      cases List.mem_append.mp hmem with
      | inl hold => exact .inl hold
      | inr hnew =>
          rw [List.mem_singleton.mp hnew]
          exact .inr trivial
  | refreshed hfetch | goesOn hfetch => exact h.seekFrom _ _
  | seekAnswered hfetch =>
      refine h.setFetch (stays_clearOffsets state.offsets _ _ _) (List.Subset.refl _)
        ⟨rfl, rfl, rfl, rfl, rfl⟩ h.seeks fun found hfound => ?_
      split at hfound
      · cases hfound
        trivial
      · cases hfound
  | @offsetsFetched _ _ _ _ generationId hfetch hrequested =>
      have hgeneration : generationId = state.offsets.manager.generationId :=
        hcurrent generationId (by rw [hfetch]; rfl)
      subst hgeneration
      exact h.offsetsFetched hfetch hrequested
  | build hfetch => exact h.request _
  | responds hfetch hrequested =>
      have hassigned := h.fetches _ (List.mem_of_getElem? hfetch)
      refine h.of_stays (Stays.refl _) (List.Subset.refl _) (List.Subset.refl _)
        (fun fetch hmem => .inl (List.mem_of_mem_eraseIdx hmem)) (fun batch hmem => ?_)
        (fun _ => .inl) (fun _ => .inl) h.seeks
      cases List.mem_append.mp hmem with
      | inl hold => exact .inl hold
      | inr hnew =>
          -- a batch is of the generation of its request
          obtain ⟨place, hplace, rfl⟩ := List.mem_map.mp hnew
          exact .inr (hassigned place (hrequested place (List.mem_filter.mp hplace).1))
  | outOfRange hfetch hrequested =>
      refine h.setFetch (Stays.refl _) (List.Subset.refl _) ⟨rfl, rfl, rfl, rfl, rfl⟩ h.seeks
        fun found hfound => ?_
      cases hfound
      trivial
  | defaultAnswered hfetch =>
      exact h.setFetch (stays_clearOffsets state.offsets _ _ _) (List.Subset.refl _)
        ⟨rfl, rfl, rfl, rfl, rfl⟩ h.seeks fun found hfound => by cases hfound
  | fetchFails hwaiting =>
      exact h.setFetch (Stays.refl _) (List.Subset.refl _) ⟨rfl, rfl, rfl, rfl, rfl⟩ h.seeks
        fun found hfound => by cases hfound
  | resolveOffset hbatch =>
      exact h.resolveOffset (List.mem_of_getElem? hbatch) (hcurrent _ hbatch) _
  | resetOffset hbatch =>
      exact h.of_stays (stays_reset state.offsets _ _) (List.Subset.refl _)
        (List.Subset.refl _) (fun _ => .inl) (fun _ => .inl) (fun _ => .inl) (fun _ => .inl) h.seeks
  | batchEnds hbatch =>
      exact h.of_stays (Stays.refl _) (List.Subset.refl _) (List.Subset.refl _) (fun _ => .inl)
        (fun batch hmem => .inl (List.mem_of_mem_eraseIdx hmem)) (fun _ => .inl)
        (fun _ => .inl) h.seeks
  | commitMisses herror =>
      exact h.of_stays (stays_miss state.offsets _) (List.Subset.refl _)
        (List.Subset.refl _) (fun _ => .inl) (fun _ => .inl) (fun _ => .inl) (fun _ => .inl) h.seeks
  | commitNothing => exact h
  | commitSends hok =>
      have hcommit := h.fromGeneration hok
      refine h.of_stays (Stays.refl _) (List.Subset.refl _) (List.Subset.refl _)
        (fun _ => .inl) (fun _ => .inl) (fun commit hmem => ?_) (fun commit hmem => ?_) h.seeks
      · cases List.mem_append.mp hmem with
        | inl hold => exact .inl hold
        | inr hnew =>
            rw [List.mem_singleton.mp hnew]
            exact .inr hcommit
      · cases List.mem_append.mp hmem with
        | inl hold => exact .inl hold
        | inr hnew =>
            rw [List.mem_singleton.mp hnew]
            exact .inr hcommit
  | commitAnswered hpayload => exact h.commitAnswered hpayload (hcurrent _ hpayload)
  | commitFails hindex =>
      exact h.of_stays (Stays.refl _) (List.Subset.refl _) (List.Subset.refl _) (fun _ => .inl)
        (fun _ => .inl) (fun commit hmem => .inl (List.mem_of_mem_eraseIdx hmem))
        (fun _ => .inl) h.seeks
  | seek topic partition offset =>
      exact h.of_stays (Stays.refl _) (List.Subset.refl _) (List.Subset.refl _) (fun _ => .inl)
        (fun _ => .inl) (fun _ => .inl) (fun _ => .inl) (.inl hcurrent)
  | pause paused =>
      exact h.of_stays (Stays.refl _) (List.Subset.refl _) (List.Subset.refl _) (fun _ => .inl)
        (fun _ => .inl) (fun _ => .inl) (fun _ => .inl) h.seeks
  | install honce => exact h.install honce

/-! ## Runs of a group that rebalances -/

/-- Where batches resolve offsets, and answers to OffsetFetch and OffsetCommit arrive, in their own
generation only, and a group without auto-commit does not seek, every commit stays within its
generation. -/
theorem within_of_current {autoCommit : Bool} {generationId : Int}
    {memberAssignment : InsertionMap τ (List Int)} {events : List (Event τ)}
    {final : GroupOffsets τ}
    (hcurrent : Meets step Current (initial autoCommit generationId memberAssignment) events)
    (hrun : run step (initial autoCommit generationId memberAssignment) events = some final) :
    final.WithinGeneration := by
  have htraced : Traced final := invariant_of_meets
    (fun _ _ _ h hcurrent hstep => h.step hcurrent (fires_of_step hstep))
    (Traced.initial autoCommit generationId memberAssignment) hcurrent hrun
  exact htraced.sent

/-- A batch is processed and committed, and then the group rebalances. -/
def committedFirst : List (Event Nat) :=
  [.fetch, .refreshed 0 [(0, 0)], .offsetsFetched 0 [(0, [(0, 5)])], .build 0, .responds 0 [(0, 0)],
    .resolveOffset 0 5, .commit, .commitAnswered 0, .batchEnds 0,
    .install 2 ⟨[(0, [1])], by decide⟩, .fetch, .refreshed 0 [(0, 1)],
    .offsetsFetched 0 [(0, [(1, 8)])], .build 0, .responds 0 [(0, 1)], .resolveOffset 0 9, .commit]

/-- A consumer that commits before it rejoins commits within its generations. -/
theorem within_committedFirst : ∃ final,
    run step (initial true 1 ⟨[(0, [0])], by decide⟩) committedFirst = some final ∧
      final.sent = [⟨1, [(0, [(0, 6)])]⟩, ⟨2, [(0, [(1, 10)])]⟩] ∧ final.WithinGeneration := by
  have hsent : (run step (initial true 1 ⟨[(0, [0])], by decide⟩) committedFirst).map sent =
      some [⟨1, [(0, [(0, 6)])]⟩, ⟨2, [(0, [(1, 10)])]⟩] := by
    decide +kernel
  obtain ⟨final, hrun, hfinal⟩ := Option.map_eq_some_iff.mp hsent
  exact ⟨final, hrun, hfinal, within_of_current (by decide +kernel) hrun⟩

/-- While a batch of the second partition is processed, another fetcher rejoins the group, and the
partition is lost. -/
def staleBatch : List (Event Nat) :=
  [.fetch, .refreshed 0 [(0, 1)], .offsetsFetched 0 [(0, [(0, 5), (1, 7)])], .build 0,
    .responds 0 [(0, 1)], .install 2 ⟨[(0, [0])], by decide⟩, .resolveOffset 0 7, .commit]

/-- A batch of the former generation is committed in the next one. -/
theorem strays_staleBatch : ∃ final,
    run step (initial true 1 ⟨[(0, [0, 1])], by decide⟩) staleBatch = some final ∧
      final.sent = [⟨2, [(0, [(1, 8)])]⟩] ∧ ¬ final.WithinGeneration := by
  refine ⟨_, rfl, rfl, fun hwithin => ?_⟩
  have hassigned := (hwithin _ List.mem_cons_self _ List.mem_cons_self _ List.mem_cons_self).1
  exact absurd hassigned (by decide)

end GroupOffsets

end KafkaJs.Consumer
