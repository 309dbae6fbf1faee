import KafkaJs.Cluster.Metadata
import Mathlib.Algebra.Group.Int.Defs

/-!
# Partitioners and the grouping of messages

A partitioner is a closure with private state; `Partitioner μ σ` passes that state explicitly.
`assignments` lists, in order, the partition each message is given by one pass of the
partitioner, and `groupMessagesPerPartition_get?` describes the groups of
`groupMessagesPerPartition` by it. `legacyPartitioner` is the built-in partitioner of
`partitioners/legacy/partitioner.js`; `assignments_keyless` is its round robin.
-/

namespace KafkaJs.Producer

open Data Cluster

/-- What a partitioner closure does with its state, the topic, the topic's metadata and a
message. -/
abbrev Partitioner (μ σ : Type) :=
  σ → String → List PartitionMetadata → μ → Int × σ

/-- The partitioner that is a pure function of the topic and the message. -/
def purePartitioner {μ : Type} (partitionOf : String → μ → Int) : Partitioner μ Unit :=
  fun state topic _ message => (partitionOf topic message, state)

section Grouping

variable {μ σ : Type} (partitioner : Partitioner μ σ) (topic : String)
  (partitionMetadata : List PartitionMetadata)

/-- The partition given to each message in turn, and the final state of the partitioner. -/
def assignments : σ → List μ → List (Int × μ) × σ
  | state, [] => ([], state)
  | state, message :: messages =>
      let (partition, next) := partitioner state topic partitionMetadata message
      let (rest, final) := assignments next messages
      ((partition, message) :: rest, final)

/-- Append a message to the group of its partition. -/
def addToGroup (result : InsertionMap Int (List μ)) (partition : Int) (message : μ) :
    InsertionMap Int (List μ) :=
  result.set partition ((result.get? partition).getD [] ++ [message])

/-- The reduction of `groupMessagesPerPartition` from an arbitrary accumulator. -/
def groupFrom : InsertionMap Int (List μ) × σ → List μ → InsertionMap Int (List μ) × σ
  | accumulator, [] => accumulator
  | (result, state), message :: messages =>
      let (partition, next) := partitioner state topic partitionMetadata message
      groupFrom (addToGroup result partition message, next) messages

/-- `groupMessagesPerPartition`: the messages grouped by the partition they are given. -/
def groupMessagesPerPartition (state : σ) (messages : List μ) :
    InsertionMap Int (List μ) × σ :=
  if partitionMetadata = [] then (InsertionMap.empty, state)
  else groupFrom partitioner topic partitionMetadata (InsertionMap.empty, state) messages

variable {partitioner topic partitionMetadata}

/-- The groups are those of the assignments appended one by one. -/
theorem groupFrom_eq (messages : List μ) (result : InsertionMap Int (List μ)) (state : σ) :
    groupFrom partitioner topic partitionMetadata (result, state) messages =
      ((assignments partitioner topic partitionMetadata state messages).1.foldl
          (fun groups entry => addToGroup groups entry.1 entry.2) result,
        (assignments partitioner topic partitionMetadata state messages).2) := by
  induction messages generalizing result state with
  | nil => rfl
  | cons message messages ih =>
      simp only [groupFrom, assignments]
      rw [ih]
      rfl

/-- Appending assignments one by one extends each group by the messages of its partition. -/
theorem foldl_addToGroup_get? (entries : List (Int × μ)) (result : InsertionMap Int (List μ))
    (partition : Int) :
    ((entries.foldl (fun groups entry => addToGroup groups entry.1 entry.2) result).get?
        partition).getD [] =
      (result.get? partition).getD [] ++
        (entries.filter fun entry => entry.1 = partition).map Prod.snd := by
  induction entries generalizing result with
  | nil => simp
  | cons entry entries ih =>
      obtain ⟨assigned, message⟩ := entry
      rw [List.foldl_cons, ih]
      by_cases h : assigned = partition
      · subst h
        simp [addToGroup]
      · rw [List.filter_cons_of_neg (by simpa using h)]
        simp [addToGroup, InsertionMap.get?_set_of_ne _ _ (Ne.symm h)]

/-- Grouping adds a group for the partition of every entry. -/
theorem foldl_addToGroup_keys (entries : List (Int × μ)) (result : InsertionMap Int (List μ))
    (partition : Int) :
    partition ∈
        (entries.foldl (fun groups entry => addToGroup groups entry.1 entry.2) result).keys ↔
      partition ∈ result.keys ∨ ∃ entry ∈ entries, entry.1 = partition := by
  induction entries generalizing result with
  | nil => simp
  | cons entry entries ih =>
      rw [List.foldl_cons, ih, addToGroup, InsertionMap.mem_keys_set, List.exists_mem_cons_iff,
        eq_comm, or_comm (a := entry.1 = partition), or_assoc]

/-- A group holds the messages assigned to its partition, in order. -/
theorem groupMessagesPerPartition_get? (hmetadata : partitionMetadata ≠ []) (state : σ)
    (messages : List μ) (partition : Int) :
    ((groupMessagesPerPartition partitioner topic partitionMetadata state messages).1.get?
        partition).getD [] =
      ((assignments partitioner topic partitionMetadata state messages).1.filter
        fun entry => entry.1 = partition).map Prod.snd := by
  rw [groupMessagesPerPartition, if_neg hmetadata, groupFrom_eq, foldl_addToGroup_get?]
  simp

/-- There is a group for exactly the partitions that some message is assigned to. -/
theorem groupMessagesPerPartition_keys (hmetadata : partitionMetadata ≠ []) (state : σ)
    (messages : List μ) (partition : Int) :
    partition ∈
        (groupMessagesPerPartition partitioner topic partitionMetadata state messages).1.keys ↔
      ∃ entry ∈ (assignments partitioner topic partitionMetadata state messages).1,
        entry.1 = partition := by
  rw [groupMessagesPerPartition, if_neg hmetadata, groupFrom_eq, foldl_addToGroup_keys]
  simp [InsertionMap.keys, InsertionMap.empty]

/-- Every message is assigned once, in order. -/
theorem assignments_map_snd (state : σ) (messages : List μ) :
    (assignments partitioner topic partitionMetadata state messages).1.map Prod.snd =
      messages := by
  induction messages generalizing state with
  | nil => rfl
  | cons message messages ih =>
      simp only [assignments, List.map_cons]
      rw [ih]

/-- A pure partitioner assigns each message independently of the others. -/
theorem assignments_pure (partitionOf : String → μ → Int) (messages : List μ) :
    assignments (purePartitioner partitionOf) topic partitionMetadata () messages =
      (messages.map fun message => (partitionOf topic message, message), ()) := by
  induction messages with
  | nil => rfl
  | cons message messages ih =>
      simp only [assignments, purePartitioner, List.map_cons] at ih ⊢
      rw [ih]

end Grouping

/-! ## The built-in partitioner -/

/-- The fields of a message that the built-in partitioner reads, and the identity of the message
object. -/
structure Message (κ : Type) where
  id : Nat
  key : Option κ := none
  partition : Option Int := none
  deriving DecidableEq, Repr

/-- The `counters` object of the closure: the own counters by topic. -/
abbrev Counters := InsertionMap String Int

/-- `++` on a number: from `2 ^ 53` on it no longer changes the number. -/
def advance (count : Int) : Int := if count < 2 ^ 53 then count + 1 else count

/-- `++counters[topic]`. A name inherited from `Object.prototype` has no number to increment and
yields `NaN`, here `none`. -/
def increment (counters : Counters) (topic : String) : Option Int × Counters :=
  match counters.get? topic with
  | some count => (some (advance count), counters.set topic (advance count))
  | none => (none, counters)

/-- `toPositive`: the low 31 bits; `NaN` counts as zero. -/
def toPositive (x : Option Int) : Int := x.getD 0 % 2 ^ 31

/-- The partitions with a leader. A null leader passes the comparison `p.leader >= 0`. -/
def availablePartitions (partitionMetadata : List PartitionMetadata) : List PartitionMetadata :=
  partitionMetadata.filter fun entry =>
    match entry.leader with
    | some leader => 0 ≤ leader
    | none => true

/-- The partition whose turn it is at a value of the counter. -/
def partitionAt (partitionMetadata : List PartitionMetadata) (count : Option Int) : Int :=
  let available := availablePartitions partitionMetadata
  match available[(toPositive count % available.length).toNat]? with
  | some entry => entry.partitionId
  -- no partitions are available, give a non-available partition
  | none => toPositive count % partitionMetadata.length

variable {κ : Type}

/-- The built-in partitioner. `seed` is the random number a topic's counter starts from. -/
def legacyPartitioner (murmur2 : κ → Int) (seed : String → Int) :
    Partitioner (Message κ) Counters :=
  fun counters topic partitionMetadata message =>
    let counters :=
      if counters.has topic ∨ topic ∈ inheritedNames then counters
      else counters.set topic (seed topic)
    match message.partition with
    | some partition => (partition, counters)
    | none =>
        match message.key with
        | some key => (toPositive (some (murmur2 key)) % partitionMetadata.length, counters)
        | none =>
            let (count, counters) := increment counters topic
            (partitionAt partitionMetadata count, counters)

/-! ### Messages without partition and key -/

/-- The counter of a topic before the partitioner is called. -/
def counterOf (seed : String → Int) (counters : Counters) (topic : String) : Option Int :=
  match counters.get? topic with
  | some count => some count
  | none => if topic ∈ inheritedNames then none else some (seed topic)

/-- The value of the counter for the message at a position. -/
def turn (count : Option Int) (position : Nat) : Option Int :=
  count.map fun count => if count < 2 ^ 53 then min (count + position + 1) (2 ^ 53) else count

/-- The first turn advances the count once. -/
theorem turn_zero (count : Option Int) : turn count 0 = count.map advance := by
  cases count with
  | none => rfl
  | some count =>
      simp only [turn, advance, Option.map_some, Option.some.injEq]
      split
      · omega
      · rfl

/-- The next turns continue from the advanced count. -/
theorem turn_succ (count : Option Int) (position : Nat) :
    turn count (position + 1) = turn (count.map advance) position := by
  cases count with
  | none => rfl
  | some count =>
      simp only [turn, advance, Option.map_some, Option.some.injEq]
      split
      · split <;> omega
      · simp

/-- A message without partition and key takes the next turn. -/
theorem legacyPartitioner_keyless (murmur2 : κ → Int) (seed : String → Int)
    (counters : Counters) (topic : String) (partitionMetadata : List PartitionMetadata)
    {message : Message κ} (hpartition : message.partition = none) (hkey : message.key = none) :
    let count := counterOf seed counters topic
    let result := legacyPartitioner murmur2 seed counters topic partitionMetadata message
    result.1 = partitionAt partitionMetadata (count.map advance) ∧
      counterOf seed result.2 topic = count.map advance := by
  have hstarted : (if counters.has topic = true ∨ topic ∈ inheritedNames then counters
      else counters.set topic (seed topic)).get? topic = counterOf seed counters topic := by
    cases hget : counters.get? topic with
    | some count => simp [InsertionMap.has, hget, counterOf]
    | none =>
        by_cases hinherited : topic ∈ inheritedNames
        · simp [hget, hinherited, counterOf]
        · simp [InsertionMap.has, hget, hinherited, counterOf]
  simp only [legacyPartitioner, hpartition, hkey, increment, hstarted]
  cases hcount : counterOf seed counters topic with
  | some count => simp [counterOf]
  | none =>
      have hinherited : topic ∈ inheritedNames := by
        by_contra habsent
        unfold counterOf at hcount
        split at hcount
        · cases hcount
        · simp [habsent] at hcount
      simp [hinherited, hcount]

/-- Messages without partition and key are assigned turn by turn. -/
theorem assignments_keyless (murmur2 : κ → Int) (seed : String → Int) (counters : Counters)
    (topic : String) (partitionMetadata : List PartitionMetadata) (messages : List (Message κ))
    (hkeyless : ∀ message ∈ messages, message.partition = none ∧ message.key = none) :
    (assignments (legacyPartitioner murmur2 seed) topic partitionMetadata counters messages).1 =
      messages.mapIdx fun position message =>
        (partitionAt partitionMetadata (turn (counterOf seed counters topic) position),
          message) := by
  induction messages generalizing counters with
  | nil => rfl
  | cons message messages ih =>
      obtain ⟨hpartition, hkey⟩ := hkeyless message List.mem_cons_self
      obtain ⟨hassigned, hcounter⟩ := legacyPartitioner_keyless murmur2 seed counters topic
        partitionMetadata hpartition hkey
      simp only [assignments, List.mapIdx_cons, hassigned, turn_zero, List.cons.injEq, true_and]
      rw [ih _ fun other hmem => hkeyless other (List.mem_cons_of_mem _ hmem), hcounter]
      simp only [turn_succ]

/-- With partitions available, the partition whose turn it is has a metadata entry. -/
theorem partitionEntry_partitionAt {partitionMetadata : List PartitionMetadata}
    (havailable : availablePartitions partitionMetadata ≠ []) (count : Option Int) :
    partitionEntry partitionMetadata (partitionAt partitionMetadata count) ≠ none := by
  have hlength : 0 < (availablePartitions partitionMetadata).length :=
    List.length_pos_iff.mpr havailable
  have hindex : (toPositive count % (availablePartitions partitionMetadata).length).toNat <
      (availablePartitions partitionMetadata).length := by
    have hnonneg := Int.emod_nonneg (toPositive count)
      (b := (availablePartitions partitionMetadata).length) (by omega)
    have hlt := Int.emod_lt_of_pos (toPositive count)
      (b := (availablePartitions partitionMetadata).length) (by omega)
    omega
  simp only [partitionAt, List.getElem?_eq_getElem hindex]
  intro hnone
  have habsent := List.find?_eq_none.mp hnone _
    (List.mem_of_mem_filter (List.getElem_mem hindex))
  simp at habsent

end KafkaJs.Producer
