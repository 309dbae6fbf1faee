import KafkaJs.Data.InsertionMap

/-!
# The committed offsets of consumer groups

The cluster keeps the committed offsets of every consumer group, by topic and partition. The
consumers of the group use them as their committed position. `committedOffset_mark`
says what marking an offset does to every position, and `markAll_insert`
when it does not matter which of two lists of offsets is marked first.

Group ids and topics are of types with decidable equality: names that no record inherits. An
offset is a decimal string in the code and an integer here.
-/

namespace KafkaJs.Cluster

open Data

/-- `committedOffsetsByGroup`. -/
abbrev CommittedOffsets (τ : Type) := InsertionMap String (InsertionMap τ (InsertionMap Int Int))

/-- A partition of a topic, for a consumer group. -/
structure GroupPartition (τ : Type) where
  groupId : String
  topic : τ
  partition : Int
  deriving DecidableEq, Repr

variable {τ : Type} [DecidableEq τ]

/-- The committed offset of a partition. -/
def committedOffset (offsets : CommittedOffsets τ) (place : GroupPartition τ) : Option Int :=
  ((offsets.get? place.groupId).bind fun topics => topics.get? place.topic).bind fun partitions =>
    partitions.get? place.partition

/-- `markOffsetAsCommitted`: the records of the group and the topic are made if they are
missing. -/
def markOffsetAsCommitted (offsets : CommittedOffsets τ) (place : GroupPartition τ)
    (offset : Int) : CommittedOffsets τ :=
  let committedOffsets := (offsets.get? place.groupId).getD InsertionMap.empty
  let partitions := (committedOffsets.get? place.topic).getD InsertionMap.empty
  offsets.set place.groupId
    (committedOffsets.set place.topic (partitions.set place.partition offset))

/-- Offsets marked one after the other. -/
def markAll (offsets : CommittedOffsets τ) (marks : List (GroupPartition τ × Int)) :
    CommittedOffsets τ :=
  marks.foldl (fun offsets mark => markOffsetAsCommitted offsets mark.1 mark.2) offsets

/-- Without marks nothing changes. -/
@[simp] theorem markAll_nil (offsets : CommittedOffsets τ) : markAll offsets [] = offsets := rfl

/-- The first mark and then the others. -/
@[simp] theorem markAll_cons (offsets : CommittedOffsets τ) (mark : GroupPartition τ × Int)
    (marks : List (GroupPartition τ × Int)) :
    markAll offsets (mark :: marks) =
      markAll (markOffsetAsCommitted offsets mark.1 mark.2) marks := rfl

/-- The marks of two lists, one after the other. -/
theorem markAll_append (offsets : CommittedOffsets τ) (first second : List (GroupPartition τ × Int)) :
    markAll offsets (first ++ second) = markAll (markAll offsets first) second :=
  List.foldl_append

/-- Marking an offset changes that partition and no other. -/
theorem committedOffset_mark (offsets : CommittedOffsets τ) (place other : GroupPartition τ)
    (offset : Int) :
    committedOffset (markOffsetAsCommitted offsets place offset) other =
      if other = place then some offset else committedOffset offsets other := by
  obtain ⟨groupId, topic, partition⟩ := place
  obtain ⟨otherGroup, otherTopic, otherPartition⟩ := other
  simp only [committedOffset, markOffsetAsCommitted, InsertionMap.get?_set,
    GroupPartition.mk.injEq]
  by_cases hgroup : otherGroup = groupId
  · subst hgroup
    by_cases htopic : otherTopic = topic
    · subst htopic
      by_cases hpartition : otherPartition = partition
      · simp [hpartition]
      · cases hgroups : offsets.get? otherGroup with
        | none => simp [hpartition, InsertionMap.get?_set]
        | some topics =>
            cases htopics : topics.get? otherTopic <;>
              simp [hpartition, InsertionMap.get?_set, htopics]
    · cases hgroups : offsets.get? otherGroup <;> simp [htopic, InsertionMap.get?_set]
  · simp [hgroup]

/-- The places of a list of marks. -/
def places (marks : List (GroupPartition τ × Int)) : List (GroupPartition τ) := marks.map Prod.fst

variable {offsets other : CommittedOffsets τ} {place : GroupPartition τ}
  {marks : List (GroupPartition τ × Int)}

/-- What is not marked keeps its offset. -/
theorem committedOffset_markAll_of_not_mem (h : place ∉ places marks) :
    committedOffset (markAll offsets marks) place = committedOffset offsets place := by
  induction marks generalizing offsets with
  | nil => rfl
  | cons mark marks ih =>
      simp only [places, List.map_cons, List.mem_cons, not_or] at h
      rw [markAll_cons, ih h.2, committedOffset_mark, if_neg h.1]

/-- Marking keeps an agreement at one place. -/
theorem committedOffset_markAll_congr
    (h : committedOffset offsets place = committedOffset other place) :
    committedOffset (markAll offsets marks) place = committedOffset (markAll other marks) place := by
  induction marks generalizing offsets other with
  | nil => exact h
  | cons mark marks ih =>
      refine ih ?_
      rw [committedOffset_mark, committedOffset_mark, h]

/-- A marked place does not depend on what was there before. -/
theorem committedOffset_markAll_of_mem (h : place ∈ places marks) :
    committedOffset (markAll offsets marks) place = committedOffset (markAll other marks) place := by
  induction marks generalizing offsets other with
  | nil => cases h
  | cons mark marks ih =>
      by_cases hrest : place ∈ places marks
      · exact ih hrest
      · have hself : place = mark.1 := by
          simpa [places, List.mem_cons, show place ∉ marks.map Prod.fst from hrest] using h
        rw [markAll_cons, markAll_cons]
        refine committedOffset_markAll_congr ?_
        rw [committedOffset_mark, committedOffset_mark, if_pos hself, if_pos hself]

/-- The maps agree on every partition of every group. -/
def Agrees (offsets other : CommittedOffsets τ) : Prop :=
  ∀ place, committedOffset offsets place = committedOffset other place

/-- Maps that agree still do after the same marks. -/
theorem Agrees.markAll (h : Agrees offsets other) (marks : List (GroupPartition τ × Int)) :
    Agrees (markAll offsets marks) (Cluster.markAll other marks) :=
  fun place => committedOffset_markAll_congr (h place)

/-- Agreement goes both ways. -/
theorem Agrees.symm (h : Agrees offsets other) : Agrees other offsets := fun place => (h place).symm

/-- Agreement is transitive. -/
theorem Agrees.trans {third : CommittedOffsets τ} (h : Agrees offsets other)
    (hnext : Agrees other third) : Agrees offsets third :=
  fun place => (h place).trans (hnext place)

/-- The marks are what the map says already. -/
def Keeps (offsets : CommittedOffsets τ) (marks : List (GroupPartition τ × Int)) : Prop :=
  ∀ place ∈ places marks,
    committedOffset (markAll offsets marks) place = committedOffset offsets place

/-- `Keeps` is decidable by going through the marks. -/
instance (offsets : CommittedOffsets τ) (marks : List (GroupPartition τ × Int)) :
    Decidable (Keeps offsets marks) := inferInstanceAs (Decidable (∀ _ ∈ _, _))

/-- Marks that keep the offsets change nothing. -/
theorem Keeps.agrees (h : Keeps offsets marks) : Agrees (markAll offsets marks) offsets := by
  intro place
  by_cases hmem : place ∈ places marks
  · exact h place hmem
  · exact committedOffset_markAll_of_not_mem hmem

/-- Marks that come between others can be marked after them, if the later ones concern other
places. -/
theorem markAll_insert (offsets : CommittedOffsets τ)
    (earlier new later : List (GroupPartition τ × Int))
    (hdisjoint : ∀ place ∈ places new, place ∉ places later) :
    Agrees (markAll offsets (earlier ++ new ++ later))
      (markAll (markAll offsets (earlier ++ later)) new) := by
  intro place
  rw [markAll_append, markAll_append, markAll_append]
  by_cases hnew : place ∈ places new
  · rw [committedOffset_markAll_of_not_mem (hdisjoint place hnew)]
    exact committedOffset_markAll_of_mem hnew
  · rw [committedOffset_markAll_of_not_mem hnew]
    exact committedOffset_markAll_congr (committedOffset_markAll_of_not_mem hnew)

end KafkaJs.Cluster
