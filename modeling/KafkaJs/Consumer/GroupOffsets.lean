import KafkaJs.Data.InsertionMap
import KafkaJs.Execution.Run

/-!
# The offsets of a consumer group across rebalances

One fetcher rebalances the group while others fetch, and while batches are processed. The new
assignment comes with a new offset manager, and with a cleared map of committed offsets, which all
offset managers of the group share. Whatever was captured before an await lives on: the
partitions of a fetch, the topics of its requests, the batches, and calls of the offset managers
of the past.

`step` is one event between two awaits. Topics are of a type with decidable equality: names that
no record inherits. An offset is a decimal string in the code and an integer here; it is `none`
where the code has stored undefined.
-/

namespace KafkaJs.Consumer

open Data

variable {τ : Type} [DecidableEq τ]

/-! ## Offset managers -/

/-- `OffsetManager`, with the generation in which it was made. -/
structure Manager (τ : Type) where
  generationId : Int
  memberAssignment : InsertionMap τ (List Int)
  resolvedOffsets : InsertionMap τ (InsertionMap Int (Option Int))
  deriving DecidableEq

/-- The offset manager of the group and those before it, and the committed offsets of the group,
which are kept by the cluster. `misses` is read by the specification only: the topics for which a
lookup found nothing. -/
structure Offsets (τ : Type) where
  manager : Manager τ
  earlier : List (Manager τ)
  committedOffsets : InsertionMap τ (InsertionMap Int Int)
  misses : List τ
  deriving DecidableEq

/-- An OffsetCommit request. -/
structure OffsetCommit (τ : Type) where
  generationId : Int
  topics : List (τ × List (Int × Int))
  deriving DecidableEq, Repr

/-- `indexTopics`: an empty record for every topic. -/
def indexTopics {ν : Type} (topics : List τ) : InsertionMap τ (InsertionMap Int ν) :=
  topics.foldl (fun map topic => map.set topic InsertionMap.empty) InsertionMap.empty

/-- Whether the partition is in the assignment of the offset manager. -/
def Manager.isAssigned (manager : Manager τ) (topic : τ) (partition : Int) : Bool :=
  (manager.memberAssignment.get? topic).any fun partitions => partition ∈ partitions

/-- An offset manager without resolved offsets. -/
def Manager.create (generationId : Int) (memberAssignment : InsertionMap τ (List Int)) :
    Manager τ :=
  ⟨generationId, memberAssignment, indexTopics memberAssignment.keys⟩

namespace Offsets

/-- A lookup that finds nothing, which is a TypeError. -/
def miss (offsets : Offsets τ) (topic : τ) : Offsets τ :=
  { offsets with misses := offsets.misses ++ [topic] }

/-- The constructor of `OffsetManager`. `clearAllOffsets` deletes all topics of the shared map
before it adds its own. -/
def install (offsets : Offsets τ) (generationId : Int)
    (memberAssignment : InsertionMap τ (List Int)) : Offsets τ :=
  { offsets with
    manager := Manager.create generationId memberAssignment
    earlier := offsets.earlier ++ [offsets.manager]
    committedOffsets := indexTopics memberAssignment.keys }

/-- The offset managers in the order in which they were made. -/
def managers (offsets : Offsets τ) : List (Manager τ) := offsets.earlier ++ [offsets.manager]

def committedOffset (offsets : Offsets τ) (topic : τ) (partition : Int) : Option Int :=
  (offsets.committedOffsets.get? topic).bind fun partitions => partitions.get? partition

/-- Change what the offset manager of the group has resolved for a topic. -/
def setResolved (offsets : Offsets τ) (topic : τ)
    (partitions : InsertionMap Int (Option Int)) : Offsets τ :=
  { offsets with
    manager := { offsets.manager with
      resolvedOffsets := offsets.manager.resolvedOffsets.set topic partitions } }

/-- `isInvalidOffset`. -/
def isInvalid : Option Int → Bool
  | none => true
  | some offset => offset < 0

/-- `resolveOffset`, with the position that it stores. -/
def resolve (offsets : Offsets τ) (topic : τ) (partition : Int) (position : Option Int) :
    Offsets τ :=
  match offsets.manager.resolvedOffsets.get? topic with
  | none => offsets.miss topic
  | some partitions => offsets.setResolved topic (partitions.set partition position)

/-- `resetOffset`: the position is the committed offset, which is looked up first. -/
def reset (offsets : Offsets τ) (topic : τ) (partition : Int) : Offsets τ :=
  match offsets.committedOffsets.get? topic with
  | none => offsets.miss topic
  | some committed => offsets.resolve topic partition (committed.get? partition)

/-- The resolved offsets of one offset manager without those of the partition. -/
def unresolve (manager : Manager τ) (topic : τ) (partition : Int) : Manager τ :=
  match manager.resolvedOffsets.get? topic with
  | none => manager
  | some partitions =>
      { manager with
        resolvedOffsets := manager.resolvedOffsets.set topic (partitions.delete partition) }

/-- `clearOffsets` of the offset manager with the number `index`, and whether it returns. -/
def clearOffsets (offsets : Offsets τ) (index : Nat) (topic : τ) (partition : Int) :
    Offsets τ × Bool :=
  match offsets.committedOffsets.get? topic with
  | none => (offsets.miss topic, false)
  | some committed =>
      let cleared : Offsets τ :=
        { offsets with
          committedOffsets := offsets.committedOffsets.set topic (committed.delete partition) }
      if (cleared.managers[index]?).any fun manager => manager.resolvedOffsets.has topic then
        if index = cleared.earlier.length then
          ({ cleared with manager := unresolve cleared.manager topic partition }, true)
        else
          ({ cleared with
              earlier := cleared.earlier.modify index fun manager =>
                unresolve manager topic partition }, true)
      else (cleared.miss topic, false)

/-- `nextOffset`: a missing position is taken from the committed offset. -/
def nextOffset (offsets : Offsets τ) (topic : τ) (partition : Int) :
    Option (Offsets τ × Int) :=
  (offsets.manager.resolvedOffsets.get? topic).map fun partitions =>
    match partitions.get? partition with
    | some (some offset) => (offsets, if isInvalid (some offset) then 0 else offset)
    | _ =>
        let committed := offsets.committedOffset topic partition
        (offsets.setResolved topic (partitions.set partition committed),
          if isInvalid committed then 0 else committed.getD 0)

/-- `nextOffset` of the partitions of a topic. -/
def nextOffsets (topic : τ) : Offsets τ → List Int → Option (Offsets τ × List (Int × Int))
  | offsets, [] => some (offsets, [])
  | offsets, partition :: partitions =>
      (offsets.nextOffset topic partition).bind fun next =>
        (nextOffsets topic next.1 partitions).map fun rest =>
          (rest.1, (partition, next.2) :: rest.2)

/-- The filter of `fetch`: the partitions that have a committed offset and are active. The lookup
of the active partitions comes second. -/
def fetchable (offsets : Offsets τ) (paused : List (τ × Int)) (topic : τ)
    (partitions : List Int) : Option (List Int) :=
  if partitions = [] then some []
  else
    (offsets.committedOffsets.get? topic).bind fun committed =>
      let initialized := partitions.filter fun partition => (committed.get? partition).isSome
      if initialized = [] then some []
      else
        (offsets.manager.memberAssignment.get? topic).map fun assigned =>
          initialized.filter fun partition =>
            partition ∈ assigned ∧ (topic, partition) ∉ paused

/-- The requests of `fetch`; none if a lookup finds nothing. -/
def buildRequests (paused : List (τ × Int)) :
    Offsets τ → List (τ × List Int) → Offsets τ × Option (List (τ × List (Int × Int)))
  | offsets, [] => (offsets, some [])
  | offsets, (topic, partitions) :: topicPartitions =>
      match (offsets.fetchable paused topic partitions).bind (offsets.nextOffsets topic) with
      | none => (offsets.miss topic, none)
      | some (next, requested) =>
          let rest := buildRequests paused next topicPartitions
          (rest.1, rest.2.map fun requests => (topic, requested) :: requests)

/-- The topics whose committed offsets `resolveOffsets` looks up. -/
def pendingPartitions (offsets : Offsets τ) : List (τ × List Int) :=
  (offsets.manager.memberAssignment.entries.map fun entry =>
    (entry.1, entry.2.filter fun partition =>
      isInvalid (offsets.committedOffset entry.1 partition))).filter fun entry => entry.2 ≠ []

/-- An assigned topic without committed offsets. -/
def uncommittedTopic (offsets : Offsets τ) : Option τ :=
  (offsets.manager.memberAssignment.entries.find? fun entry =>
    entry.2 ≠ [] ∧ offsets.committedOffsets.has entry.1 = false).map Prod.fst

/-- Why `uncommittedOffsets` throws: a lookup that finds nothing, or an offset that is
undefined. -/
inductive Thrown (τ : Type) where
  | missing (topic : τ)
  | undefinedOffset
  deriving DecidableEq, Repr

/-- `changedOffsets`: valid offsets other than the committed ones. -/
def changedOffsets (committed : InsertionMap Int Int) :
    List (Int × Option Int) → Except (Thrown τ) (List (Int × Int))
  | [] => .ok []
  | (partition, position) :: positions =>
      if position = committed.get? partition then changedOffsets committed positions
      else
        match position with
        | none => .error .undefinedOffset
        | some offset =>
            (changedOffsets committed positions).map fun changed =>
              if 0 ≤ offset then (partition, offset) :: changed else changed

/-- The offsets of a topic that `uncommittedOffsets` selects. -/
def topicOffsets (offsets : Offsets τ) (topic : τ) : Except (Thrown τ) (List (Int × Int)) :=
  match offsets.manager.resolvedOffsets.get? topic with
  | none => .error (.missing topic)
  | some partitions =>
      if partitions.entries = [] then .ok []
      else
        match offsets.committedOffsets.get? topic with
        | none => .error (.missing topic)
        | some committed => changedOffsets committed partitions.entries

/-- `uncommittedOffsets`, topic by topic. -/
def uncommittedOffsets (offsets : Offsets τ) :
    List τ → Except (Thrown τ) (List (τ × List (Int × Int)))
  | [] => .ok []
  | topic :: topics => do
      let changed ← offsets.topicOffsets topic
      let rest ← offsets.uncommittedOffsets topics
      return if changed = [] then rest else (topic, changed) :: rest

/-- New committed offsets of a topic, over those that it may have. -/
def markTopic (offsets : Offsets τ) (topic : τ) (marked : List (Int × Int)) : Offsets τ :=
  { offsets with
    committedOffsets := offsets.committedOffsets.set topic
      (marked.foldl (fun partitions mark => partitions.set mark.1 mark.2)
        ((offsets.committedOffsets.get? topic).getD InsertionMap.empty)) }

/-- The answers to OffsetFetch and to OffsetCommit. -/
def mark (offsets : Offsets τ) (topics : List (τ × List (Int × Int))) : Offsets τ :=
  topics.foldl (fun offsets entry => offsets.markTopic entry.1 entry.2) offsets

end Offsets

/-! ## Fetches -/

/-- Where a fetch is. A call of an offset manager carries its number, and a request the generation
in which it was made. -/
inductive FetchPhase (τ : Type) where
  | refreshing
  /-- The loop of `seekOffsets` goes on with the remaining partitions. -/
  | seeking (todo : List (τ × Int))
  /-- `OffsetManager.seek` waits for its commit. -/
  | committing (manager : Nat) (topic : τ) (partition : Int) (todo : List (τ × Int))
  /-- `resolveOffsets` waits for the coordinator. -/
  | resolving (generationId : Int) (pendingPartitions : List (τ × List Int))
  | ready
  | requesting (generationId : Int) (requests : List (τ × List (Int × Int)))
  /-- `setDefaultOffset` waits for its commit. -/
  | defaulting (manager : Nat) (topic : τ) (partition : Int)
  deriving DecidableEq, Repr

/-- A fetch, with the partitions of its node as they were when it began. -/
structure GroupFetch (τ : Type) where
  topicPartitions : List (τ × List Int)
  phase : FetchPhase τ
  deriving DecidableEq, Repr

/-- A batch that waits for a worker or is processed, with the generation of its request. -/
structure FetchedBatch (τ : Type) where
  generationId : Int
  topic : τ
  partition : Int
  deriving DecidableEq, Repr

/-- An offset of a partition, in a generation. -/
structure GenerationOffset (τ : Type) where
  generationId : Int
  topic : τ
  partition : Int
  offset : Int
  deriving DecidableEq, Repr

/-- The consumer group. `commits` are in flight. The last three fields are read by the
specification only: the commits that were sent, the offsets that `resolveOffsets` got, and the
offsets that batches have resolved, with the generation of the batch. -/
structure GroupOffsets (τ : Type) where
  autoCommit : Bool
  offsets : Offsets τ
  paused : List (τ × Int)
  seekOffset : InsertionMap (τ × Int) Int
  fetches : List (GroupFetch τ)
  batches : List (FetchedBatch τ)
  commits : List (OffsetCommit τ)
  sent : List (OffsetCommit τ)
  fetched : List (GenerationOffset τ)
  resolved : List (GenerationOffset τ)
  deriving DecidableEq

namespace GroupOffsets

/-- What may happen next. `install` is the end of a `joinAndSync`, whoever has called it; `leads`
are the partitions that the fetcher's node is to be asked for, and `paused` the partitions that
are paused after a call of `pause` or `resume`. -/
inductive Event (τ : Type) where
  | fetch
  | refreshed (index : Nat) (leads : List (τ × Int))
  | seekAnswered (index : Nat)
  | goesOn (index : Nat)
  | offsetsFetched (index : Nat) (offsets : List (τ × List (Int × Int)))
  | build (index : Nat)
  | responds (index : Nat) (batches : List (τ × Int))
  | outOfRange (index : Nat) (topic : τ) (partition : Int)
  | defaultAnswered (index : Nat)
  | fetchFails (index : Nat)
  | resolveOffset (batch : Nat) (offset : Int)
  | resetOffset (batch : Nat)
  | batchEnds (batch : Nat)
  | commit
  | commitAnswered (index : Nat)
  | commitFails (index : Nat)
  | seek (topic : τ) (partition : Int) (offset : Int)
  | pause (paused : List (τ × Int))
  | install (generationId : Int) (memberAssignment : InsertionMap τ (List Int))
  deriving DecidableEq

/-- The group after its first join. -/
def initial (autoCommit : Bool) (generationId : Int)
    (memberAssignment : InsertionMap τ (List Int)) : GroupOffsets τ :=
  { autoCommit := autoCommit
    offsets :=
      { manager := Manager.create generationId memberAssignment
        earlier := []
        committedOffsets := indexTopics memberAssignment.keys
        misses := [] }
    paused := []
    seekOffset := InsertionMap.empty
    fetches := []
    batches := []
    commits := []
    sent := []
    fetched := []
    resolved := [] }

/-- The phase in which the loop of `seekOffsets` waits next, none if it throws. -/
def seekOffsets (autoCommit : Bool) (offsets : Offsets τ) (seekOffset : InsertionMap (τ × Int) Int) :
    List (τ × Int) → Offsets τ × InsertionMap (τ × Int) Int × Option (FetchPhase τ)
  | [] =>
      match offsets.uncommittedTopic with
      | some topic => (offsets.miss topic, seekOffset, none)
      | none =>
          (offsets, seekOffset,
            if offsets.pendingPartitions = [] then some .ready
            else some (.resolving offsets.manager.generationId offsets.pendingPartitions))
  | (topic, partition) :: todo =>
      match seekOffset.get? (topic, partition) with
      | none => seekOffsets autoCommit offsets seekOffset todo
      | some offset =>
          -- the entry is popped, whether or not the seek succeeds
          let popped := seekOffset.delete (topic, partition)
          if offsets.manager.isAssigned topic partition = false then
            (offsets, popped, some (.seeking todo))
          else if autoCommit = false then
            (offsets.resolve topic partition (some offset), popped, some (.seeking todo))
          else
            (offsets, popped, some (.committing offsets.earlier.length topic partition todo))

/-- The fetch goes on, or ends. -/
def setFetch (state : GroupOffsets τ) (index : Nat) : Option (GroupFetch τ) → GroupOffsets τ
  | some fetch => { state with fetches := state.fetches.set index fetch }
  | none => { state with fetches := state.fetches.eraseIdx index }

/-- The loop of `seekOffsets`, in a fetch. -/
def seekFrom (state : GroupOffsets τ) (index : Nat) (topicPartitions : List (τ × List Int))
    (todo : List (τ × Int)) : GroupOffsets τ :=
  let result := seekOffsets state.autoCommit state.offsets state.seekOffset todo
  { state with offsets := result.1, seekOffset := result.2.1 }.setFetch index
    (result.2.2.map (GroupFetch.mk topicPartitions))

/-- `filterPartitionsByNode` of the assigned partitions. -/
def partitionsOfNode (state : GroupOffsets τ) (leads : List (τ × Int)) : List (τ × List Int) :=
  state.offsets.manager.memberAssignment.entries.map fun entry =>
    (entry.1, entry.2.filter fun partition => (entry.1, partition) ∈ leads)

/-- The partitions of a list of topics with partitions, one by one. -/
def places {ν : Type} (topics : List (τ × List ν)) : List (τ × ν) :=
  topics.flatMap fun entry => entry.2.map fun partition => (entry.1, partition)

/-- `fetch`, from the requests to the answer of the broker. The fetch ends if there is nothing to
request, or if a lookup finds nothing. -/
def request (state : GroupOffsets τ) (index : Nat) (topicPartitions : List (τ × List Int)) :
    GroupOffsets τ :=
  let result := Offsets.buildRequests state.paused state.offsets topicPartitions
  let requests := result.2.map fun requests => requests.filter fun entry => entry.2 ≠ []
  { state with offsets := result.1 }.setFetch index
    (match requests with
    | none | some [] => none
    | some requests =>
        some ⟨topicPartitions, .requesting state.offsets.manager.generationId requests⟩)

/-- The partitions of a request, with the offsets left out. -/
def requested (requests : List (τ × List (Int × Int))) : List (τ × Int) :=
  (places requests).map fun place => (place.1, place.2.1)

/-- The offsets that the coordinator has answered, one by one. -/
def answered (generationId : Int) (offsets : List (τ × List (Int × Int))) :
    List (GenerationOffset τ) :=
  (places offsets).map fun place => ⟨generationId, place.1, place.2.1, place.2.2⟩

/-- Phases in which a fetch waits for an answer, which may be an error. -/
def isWaiting : FetchPhase τ → Bool
  | .refreshing | .committing _ _ _ _ | .resolving _ _ | .requesting _ _ | .defaulting _ _ _ => true
  | .seeking _ | .ready => false

/-- One event. -/
def step (state : GroupOffsets τ) : Event τ → Option (GroupOffsets τ)
  | .fetch => some { state with fetches := state.fetches ++ [⟨[], .refreshing⟩] }
  | .refreshed index leads =>
      match state.fetches[index]? with
      | some ⟨_, .refreshing⟩ =>
          let topicPartitions := state.partitionsOfNode leads
          some (state.seekFrom index topicPartitions (places topicPartitions))
      | _ => none
  | .seekAnswered index =>
      match state.fetches[index]? with
      | some ⟨topicPartitions, .committing manager topic partition todo⟩ =>
          let result := state.offsets.clearOffsets manager topic partition
          some ({ state with offsets := result.1 }.setFetch index
            (if result.2 then some ⟨topicPartitions, .seeking todo⟩ else none))
      | _ => none
  | .goesOn index =>
      match state.fetches[index]? with
      | some ⟨topicPartitions, .seeking todo⟩ => some (state.seekFrom index topicPartitions todo)
      | _ => none
  | .offsetsFetched index offsets =>
      match state.fetches[index]? with
      | some ⟨topicPartitions, .resolving generationId pendingPartitions⟩ =>
          -- the coordinator answers what it was asked for
          if ∀ place ∈ requested offsets, place ∈ places pendingPartitions then
            some ({ state with
              offsets := state.offsets.mark offsets
              fetched := state.fetched ++ answered generationId offsets }.setFetch index
                (some ⟨topicPartitions, .ready⟩))
          else none
      | _ => none
  | .build index =>
      match state.fetches[index]? with
      | some ⟨topicPartitions, .ready⟩ => some (state.request index topicPartitions)
      | _ => none
  | .responds index batches =>
      match state.fetches[index]? with
      | some ⟨_, .requesting generationId requests⟩ =>
          if ∀ place ∈ batches, place ∈ requested requests then
            some { state with
              fetches := state.fetches.eraseIdx index
              batches := state.batches ++
                (batches.filter fun place =>
                  state.seekOffset.has place = false ∧ place ∉ state.paused).map fun place =>
                    FetchedBatch.mk generationId place.1 place.2 }
          else none
      | _ => none
  | .outOfRange index topic partition =>
      match state.fetches[index]? with
      | some ⟨topicPartitions, .requesting _ requests⟩ =>
          -- the entry of a preferred replica is never a number, so there is no retry with the leader
          if (topic, partition) ∈ requested requests then
            some (state.setFetch index
              (some ⟨topicPartitions, .defaulting state.offsets.earlier.length topic partition⟩))
          else none
      | _ => none
  | .defaultAnswered index =>
      match state.fetches[index]? with
      | some ⟨_, .defaulting manager topic partition⟩ =>
          let result := state.offsets.clearOffsets manager topic partition
          some ({ state with offsets := result.1 }.setFetch index none)
      | _ => none
  | .fetchFails index =>
      if (state.fetches[index]?).any fun fetch => isWaiting fetch.phase then
        some (state.setFetch index none)
      else none
  | .resolveOffset batch offset =>
      match state.batches[batch]? with
      | some ⟨generationId, topic, partition⟩ =>
          some { state with
            offsets := state.offsets.resolve topic partition (some (offset + 1))
            resolved := state.resolved ++ [⟨generationId, topic, partition, offset⟩] }
      | none => none
  | .resetOffset batch =>
      match state.batches[batch]? with
      | some ⟨_, topic, partition⟩ =>
          some { state with offsets := state.offsets.reset topic partition }
      | none => none
  | .batchEnds batch =>
      if batch < state.batches.length then
        some { state with batches := state.batches.eraseIdx batch }
      else none
  | .commit =>
      match state.offsets.uncommittedOffsets state.offsets.manager.memberAssignment.keys with
      | .error (.missing topic) => some { state with offsets := state.offsets.miss topic }
      | .error .undefinedOffset => some state
      | .ok [] => some state
      | .ok topics =>
          let payload : OffsetCommit τ := ⟨state.offsets.manager.generationId, topics⟩
          some { state with
            commits := state.commits ++ [payload]
            sent := state.sent ++ [payload] }
  | .commitAnswered index =>
      match state.commits[index]? with
      | some payload =>
          some { state with
            offsets := state.offsets.mark payload.topics
            commits := state.commits.eraseIdx index }
      | none => none
  | .commitFails index =>
      if index < state.commits.length then
        some { state with commits := state.commits.eraseIdx index }
      else none
  | .seek topic partition offset =>
      some { state with seekOffset := state.seekOffset.set (topic, partition) offset }
  | .pause paused => some { state with paused := paused }
  | .install generationId memberAssignment =>
      -- a generation has one assignment for the member
      if ∀ manager ∈ state.offsets.managers, manager.generationId = generationId →
          manager.memberAssignment = memberAssignment then
        some { state with offsets := state.offsets.install generationId memberAssignment }
      else none

/-- What an event does, with the guards under which it happens. -/
inductive Fires (state : GroupOffsets τ) : Event τ → GroupOffsets τ → Prop where
  | fetch : Fires state .fetch { state with fetches := state.fetches ++ [⟨[], .refreshing⟩] }
  | refreshed {index : Nat} {leads : List (τ × Int)} {topicPartitions : List (τ × List Int)}
      (hfetch : state.fetches[index]? = some ⟨topicPartitions, .refreshing⟩) :
      Fires state (.refreshed index leads)
        (state.seekFrom index (state.partitionsOfNode leads) (places (state.partitionsOfNode leads)))
  | seekAnswered {index manager : Nat} {topicPartitions : List (τ × List Int)} {topic : τ}
      {partition : Int} {todo : List (τ × Int)}
      (hfetch : state.fetches[index]? =
        some ⟨topicPartitions, .committing manager topic partition todo⟩) :
      Fires state (.seekAnswered index)
        ({ state with
          offsets := (state.offsets.clearOffsets manager topic partition).1 }.setFetch index
            (if (state.offsets.clearOffsets manager topic partition).2 then
              some ⟨topicPartitions, .seeking todo⟩ else none))
  | goesOn {index : Nat} {topicPartitions : List (τ × List Int)} {todo : List (τ × Int)}
      (hfetch : state.fetches[index]? = some ⟨topicPartitions, .seeking todo⟩) :
      Fires state (.goesOn index) (state.seekFrom index topicPartitions todo)
  | offsetsFetched {index : Nat} {offsets : List (τ × List (Int × Int))}
      {topicPartitions pendingPartitions : List (τ × List Int)} {generationId : Int}
      (hfetch : state.fetches[index]? =
        some ⟨topicPartitions, .resolving generationId pendingPartitions⟩)
      (hrequested : ∀ place ∈ requested offsets, place ∈ places pendingPartitions) :
      Fires state (.offsetsFetched index offsets)
        ({ state with
          offsets := state.offsets.mark offsets
          fetched := state.fetched ++ answered generationId offsets }.setFetch index
            (some ⟨topicPartitions, .ready⟩))
  | build {index : Nat} {topicPartitions : List (τ × List Int)}
      (hfetch : state.fetches[index]? = some ⟨topicPartitions, .ready⟩) :
      Fires state (.build index) (state.request index topicPartitions)
  | responds {index : Nat} {batches : List (τ × Int)} {topicPartitions : List (τ × List Int)}
      {generationId : Int} {requests : List (τ × List (Int × Int))}
      (hfetch : state.fetches[index]? =
        some ⟨topicPartitions, .requesting generationId requests⟩)
      (hrequested : ∀ place ∈ batches, place ∈ requested requests) :
      Fires state (.responds index batches)
        { state with
          fetches := state.fetches.eraseIdx index
          batches := state.batches ++
            (batches.filter fun place =>
              state.seekOffset.has place = false ∧ place ∉ state.paused).map fun place =>
                FetchedBatch.mk generationId place.1 place.2 }
  | outOfRange {index : Nat} {topic : τ} {partition : Int} {topicPartitions : List (τ × List Int)}
      {generationId : Int} {requests : List (τ × List (Int × Int))}
      (hfetch : state.fetches[index]? =
        some ⟨topicPartitions, .requesting generationId requests⟩)
      (hrequested : (topic, partition) ∈ requested requests) :
      Fires state (.outOfRange index topic partition)
        (state.setFetch index
          (some ⟨topicPartitions, .defaulting state.offsets.earlier.length topic partition⟩))
  | defaultAnswered {index manager : Nat} {topicPartitions : List (τ × List Int)} {topic : τ}
      {partition : Int}
      (hfetch : state.fetches[index]? =
        some ⟨topicPartitions, .defaulting manager topic partition⟩) :
      Fires state (.defaultAnswered index)
        ({ state with
          offsets := (state.offsets.clearOffsets manager topic partition).1 }.setFetch index none)
  | fetchFails {index : Nat}
      (hwaiting : (state.fetches[index]?).any (fun fetch => isWaiting fetch.phase) = true) :
      Fires state (.fetchFails index) (state.setFetch index none)
  | resolveOffset {batch : Nat} {offset generationId partition : Int} {topic : τ}
      (hbatch : state.batches[batch]? = some ⟨generationId, topic, partition⟩) :
      Fires state (.resolveOffset batch offset)
        { state with
          offsets := state.offsets.resolve topic partition (some (offset + 1))
          resolved := state.resolved ++ [⟨generationId, topic, partition, offset⟩] }
  | resetOffset {batch : Nat} {generationId partition : Int} {topic : τ}
      (hbatch : state.batches[batch]? = some ⟨generationId, topic, partition⟩) :
      Fires state (.resetOffset batch)
        { state with offsets := state.offsets.reset topic partition }
  | batchEnds {batch : Nat} (hbatch : batch < state.batches.length) :
      Fires state (.batchEnds batch) { state with batches := state.batches.eraseIdx batch }
  | commitMisses {topic : τ}
      (herror : state.offsets.uncommittedOffsets state.offsets.manager.memberAssignment.keys =
        .error (.missing topic)) :
      Fires state .commit { state with offsets := state.offsets.miss topic }
  /-- There is nothing to commit, or an offset is undefined. -/
  | commitNothing : Fires state .commit state
  | commitSends {topics : List (τ × List (Int × Int))}
      (hok : state.offsets.uncommittedOffsets state.offsets.manager.memberAssignment.keys =
        .ok topics) :
      Fires state .commit
        { state with
          commits := state.commits ++ [⟨state.offsets.manager.generationId, topics⟩]
          sent := state.sent ++ [⟨state.offsets.manager.generationId, topics⟩] }
  | commitAnswered {index : Nat} {payload : OffsetCommit τ}
      (hpayload : state.commits[index]? = some payload) :
      Fires state (.commitAnswered index)
        { state with
          offsets := state.offsets.mark payload.topics
          commits := state.commits.eraseIdx index }
  | commitFails {index : Nat} (hindex : index < state.commits.length) :
      Fires state (.commitFails index) { state with commits := state.commits.eraseIdx index }
  | seek (topic : τ) (partition offset : Int) :
      Fires state (.seek topic partition offset)
        { state with seekOffset := state.seekOffset.set (topic, partition) offset }
  | pause (paused : List (τ × Int)) :
      Fires state (.pause paused) { state with paused := paused }
  | install {generationId : Int} {memberAssignment : InsertionMap τ (List Int)}
      (honce : ∀ manager ∈ state.offsets.managers, manager.generationId = generationId →
        manager.memberAssignment = memberAssignment) :
      Fires state (.install generationId memberAssignment)
        { state with offsets := state.offsets.install generationId memberAssignment }

/-- Every step of the group does what its event says. -/
theorem fires_of_step {state next : GroupOffsets τ} {event : Event τ}
    (hstep : step state event = some next) : Fires state event next := by
  cases event with
  | fetch | seek | pause =>
      cases hstep
      constructor
  | refreshed | seekAnswered | goesOn | build | defaultAnswered | fetchFails | resolveOffset
  | resetOffset | batchEnds | commitAnswered | commitFails | install =>
      simp only [step] at hstep
      split at hstep
      · next hguard =>
          cases hstep
          constructor
          exact hguard
      · cases hstep
  | offsetsFetched | responds | outOfRange =>
      simp only [step] at hstep
      split at hstep
      · next hfetch =>
          split at hstep
          · next hrequested =>
              cases hstep
              constructor
              · exact hfetch
              · exact hrequested
          · cases hstep
      · cases hstep
  | commit =>
      simp only [step] at hstep
      split at hstep
      · next herror =>
          cases hstep
          exact .commitMisses herror
      · cases hstep
        exact .commitNothing
      · cases hstep
        exact .commitNothing
      · next hok =>
          cases hstep
          exact .commitSends hok

/-! ## What the operations look up and change -/

/-- Indexing topics gives each of them an empty map and leaves the others. -/
theorem get?_indexTopics_foldl {ν : Type} (topics : List τ) (map : InsertionMap τ (InsertionMap Int ν))
    (topic : τ) :
    (topics.foldl (fun map topic => map.set topic InsertionMap.empty) map).get? topic =
      if topic ∈ topics then some InsertionMap.empty else map.get? topic := by
  induction topics generalizing map with
  | nil => simp
  | cons first topics ih =>
      rw [List.foldl_cons, ih, InsertionMap.get?_set]
      by_cases hmem : topic ∈ topics
      · simp [hmem]
      · by_cases hfirst : topic = first <;> simp [hmem, hfirst]

/-- Every topic has an empty record. -/
theorem get?_indexTopics {ν : Type} (topics : List τ) (topic : τ) :
    (indexTopics topics : InsertionMap τ (InsertionMap Int ν)).get? topic =
      if topic ∈ topics then some InsertionMap.empty else none :=
  get?_indexTopics_foldl topics InsertionMap.empty topic

omit [DecidableEq τ] in
/-- The places of an assignment are the partitions of its topics. -/
theorem mem_places {ν : Type} {topics : List (τ × List ν)} {topic : τ} {partition : ν} :
    (topic, partition) ∈ places topics ↔ ∃ partitions, (topic, partitions) ∈ topics ∧
      partition ∈ partitions := by
  simp only [places, List.mem_flatMap, List.mem_map, Prod.mk.injEq, Prod.exists]
  constructor
  · rintro ⟨first, partitions, hmem, _, hpartition, rfl, rfl⟩
    exact ⟨partitions, hmem, hpartition⟩
  · rintro ⟨partitions, hmem, hpartition⟩
    exact ⟨topic, partitions, hmem, partition, hpartition, rfl, rfl⟩

omit [DecidableEq τ] in
/-- The requested places are those of the listed offsets. -/
theorem mem_requested {requests : List (τ × List (Int × Int))} {topic : τ} {partition : Int} :
    (topic, partition) ∈ requested requests ↔ ∃ offsets, (topic, offsets) ∈ requests ∧
      partition ∈ offsets.map Prod.fst := by
  simp only [requested, List.mem_map, Prod.mk.injEq, Prod.exists]
  constructor
  · rintro ⟨first, _, offset, hplace, rfl, rfl⟩
    obtain ⟨offsets, hmem, hoffset⟩ := mem_places.mp hplace
    exact ⟨offsets, hmem, _, offset, hoffset, rfl⟩
  · rintro ⟨offsets, hmem, _, offset, hoffset, rfl⟩
    exact ⟨topic, _, offset, mem_places.mpr ⟨offsets, hmem, hoffset⟩, rfl, rfl⟩

end GroupOffsets

/-- A partition is assigned exactly when the member's assignment lists it. -/
theorem Manager.isAssigned_iff {manager : Manager τ} {topic : τ} {partition : Int} :
    manager.isAssigned topic partition = true ↔
      ∃ partitions, (topic, partitions) ∈ manager.memberAssignment.entries ∧
        partition ∈ partitions := by
  simp [isAssigned, Option.any_eq_true, InsertionMap.mem_entries_iff]

/-- The topic of an assigned partition. -/
theorem Manager.mem_keys_of_isAssigned {manager : Manager τ} {topic : τ} {partition : Int}
    (h : manager.isAssigned topic partition = true) :
    topic ∈ manager.memberAssignment.keys := by
  obtain ⟨partitions, hmem, -⟩ := isAssigned_iff.mp h
  exact List.mem_map.mpr ⟨_, hmem, rfl⟩

namespace Offsets

/-- The partitions that `fetch` selects are those of its node that are assigned now. -/
theorem mem_of_fetchable {offsets : Offsets τ} {paused : List (τ × Int)} {topic : τ}
    {partitions selected : List Int}
    (h : offsets.fetchable paused topic partitions = some selected) {partition : Int}
    (hmem : partition ∈ selected) :
    partition ∈ partitions ∧ offsets.manager.isAssigned topic partition = true := by
  unfold fetchable at h
  split at h
  · cases h
    cases hmem
  · obtain ⟨committed, -, h⟩ := Option.bind_eq_some_iff.mp h
    dsimp only at h
    split at h
    · cases h
      cases hmem
    · obtain ⟨assigned, hassigned, rfl⟩ := Option.map_eq_some_iff.mp h
      obtain ⟨hinitialized, hactive⟩ := List.mem_filter.mp hmem
      refine ⟨(List.mem_filter.mp hinitialized).1, ?_⟩
      simp only [Bool.decide_and, Bool.and_eq_true, decide_eq_true_eq] at hactive
      simp [Manager.isAssigned, hassigned, hactive.1]

/-- A position is at most copied from the committed offset. -/
theorem nextOffset_cases {offsets next : Offsets τ} {topic : τ} {partition offset : Int}
    (h : offsets.nextOffset topic partition = some (next, offset)) :
    next = offsets ∨ ∃ partitions, offsets.manager.resolvedOffsets.get? topic = some partitions ∧
      next = offsets.setResolved topic
        (partitions.set partition (offsets.committedOffset topic partition)) := by
  obtain ⟨partitions, hpartitions, h⟩ := Option.map_eq_some_iff.mp h
  split at h
  · cases h
    exact .inl rfl
  · cases h
    exact .inr ⟨partitions, hpartitions, rfl⟩

/-- A property that survives the copy of the committed offset of an assigned partition survives
the requests of `fetch`. -/
theorem of_nextOffsets {motive : Offsets τ → Prop} {topic : τ} {selected : List Int}
    (hcopy : ∀ offsets next partition offset, motive offsets → partition ∈ selected →
      offsets.nextOffset topic partition = some (next, offset) → motive next)
    {offsets next : Offsets τ} {entries : List (Int × Int)} (hoffsets : motive offsets)
    (h : nextOffsets topic offsets selected = some (next, entries)) :
    motive next ∧ entries.map Prod.fst = selected := by
  induction selected generalizing offsets entries with
  | nil =>
      cases h
      exact ⟨hoffsets, rfl⟩
  | cons partition selected ih =>
      obtain ⟨⟨first, offset⟩, hfirst, h⟩ := Option.bind_eq_some_iff.mp h
      obtain ⟨⟨last, rest⟩, hrest, h⟩ := Option.map_eq_some_iff.mp h
      cases h
      have hmotive := hcopy _ _ _ _ hoffsets List.mem_cons_self hfirst
      obtain ⟨hlast, hpartitions⟩ := ih
        (fun offsets next partition offset hoffsets hmem =>
          hcopy offsets next partition offset hoffsets (List.mem_cons_of_mem _ hmem))
        hmotive hrest
      exact ⟨hlast, congrArg (List.cons partition) hpartitions⟩

/-- Asking for the next offset keeps the assignment. -/
theorem assignment_of_nextOffset {offsets next : Offsets τ} {topic : τ} {partition offset : Int}
    (h : offsets.nextOffset topic partition = some (next, offset)) :
    next.manager.memberAssignment = offsets.manager.memberAssignment := by
  obtain rfl | ⟨partitions, -, rfl⟩ := nextOffset_cases h
  · rfl
  · rfl

/-- The rule for the requests of `fetch`: what survives the copies of committed offsets of
assigned partitions, and the lookups that find nothing, survives the whole. -/
theorem of_buildRequests {motive : Offsets τ → Prop} {paused : List (τ × Int)}
    {topicPartitions : List (τ × List Int)}
    (hcopy : ∀ offsets next topic partition offset, motive offsets →
      offsets.manager.isAssigned topic partition = true →
      offsets.nextOffset topic partition = some (next, offset) → motive next)
    (hmiss : ∀ offsets topic partitions, motive offsets → (topic, partitions) ∈ topicPartitions →
      (offsets.fetchable paused topic partitions).bind (nextOffsets topic offsets) = none →
      motive (offsets.miss topic))
    {offsets : Offsets τ} (h : motive offsets) :
    motive (buildRequests paused offsets topicPartitions).1 := by
  induction topicPartitions generalizing offsets with
  | nil => exact h
  | cons entry topicPartitions ih =>
      obtain ⟨topic, partitions⟩ := entry
      rw [buildRequests]
      split
      · next hnone => exact hmiss offsets topic partitions h List.mem_cons_self hnone
      · next next requested hsome =>
          obtain ⟨selected, hselected, hnext⟩ := Option.bind_eq_some_iff.mp hsome
          -- the assignment stays the same while the positions are copied
          have hcopied := of_nextOffsets
            (motive := fun current => motive current ∧
              current.manager.memberAssignment = offsets.manager.memberAssignment)
            (fun current following partition offset hcurrent hmem hfollowing => by
              have hassigned : current.manager.isAssigned topic partition = true := by
                rw [Manager.isAssigned, hcurrent.2]
                exact (mem_of_fetchable hselected hmem).2
              exact ⟨hcopy current following topic partition offset hcurrent.1 hassigned hfollowing,
                (assignment_of_nextOffset hfollowing).trans hcurrent.2⟩)
            ⟨h, rfl⟩ hnext
          exact ih (fun offsets topic partitions hoffsets hmem =>
            hmiss offsets topic partitions hoffsets (List.mem_cons_of_mem _ hmem)) hcopied.1.1

/-- Every requested partition is one of its node, and assigned now. -/
theorem requested_of_buildRequests {paused : List (τ × Int)}
    {topicPartitions : List (τ × List Int)} {offsets : Offsets τ}
    {requests : List (τ × List (Int × Int))}
    (h : (buildRequests paused offsets topicPartitions).2 = some requests) {topic : τ}
    {partition : Int} (hmem : (topic, partition) ∈ GroupOffsets.requested requests) :
    (topic, partition) ∈ GroupOffsets.places topicPartitions ∧
      offsets.manager.isAssigned topic partition = true := by
  induction topicPartitions generalizing offsets requests with
  | nil =>
      cases h
      cases hmem
  | cons entry topicPartitions ih =>
      obtain ⟨first, partitions⟩ := entry
      rw [buildRequests] at h
      split at h
      · cases h
      · next next entries hsome =>
          obtain ⟨selected, hselected, hnext⟩ := Option.bind_eq_some_iff.mp hsome
          obtain ⟨hassignment, hentries⟩ := of_nextOffsets
            (motive := fun current =>
              current.manager.memberAssignment = offsets.manager.memberAssignment)
            (fun current following partition offset hcurrent _ hfollowing =>
              (assignment_of_nextOffset hfollowing).trans hcurrent) rfl hnext
          obtain ⟨rest, hrest, rfl⟩ := Option.map_eq_some_iff.mp h
          obtain ⟨found, hfound, hpartition⟩ := GroupOffsets.mem_requested.mp hmem
          cases List.mem_cons.mp hfound with
          | inl hhead =>
              cases hhead
              rw [hentries] at hpartition
              obtain ⟨hnode, hassigned⟩ := mem_of_fetchable hselected hpartition
              exact ⟨GroupOffsets.mem_places.mpr ⟨partitions, List.mem_cons_self, hnode⟩, hassigned⟩
          | inr htail =>
              obtain ⟨hplace, hassigned⟩ := ih hrest
                (GroupOffsets.mem_requested.mpr ⟨found, htail, hpartition⟩)
              obtain ⟨others, hothers, hother⟩ := GroupOffsets.mem_places.mp hplace
              refine ⟨GroupOffsets.mem_places.mpr ⟨others, List.mem_cons_of_mem _ hothers, hother⟩,
                ?_⟩
              rwa [Manager.isAssigned, hassignment] at hassigned

end Offsets

end KafkaJs.Consumer
