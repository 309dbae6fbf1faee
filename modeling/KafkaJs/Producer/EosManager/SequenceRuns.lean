import KafkaJs.Data.InsertionMap
import KafkaJs.Producer.EosManager.Sequences
import Mathlib.Algebra.BigOperators.Group.List.Basic
import Mathlib.Algebra.Ring.Int.Defs
import Mathlib.Data.List.Infix

/-!
# Sequences over runs of updates

Kafka counts the records of a topic-partition modulo `2 ^ 31`: after the sequence `2 ^ 31 - 1` comes
zero. `updateSequence` starts again from zero whenever it would come to `2 ^ 31 - 1` or beyond, and
forgets by how much. `counts_iff` says when this makes no difference: when no update comes to the
maximum, or one that does ends exactly where the count starts again. An update that was rotated is
not undone by the opposite one.

The sequences stand in an object with an object for each topic. Until a topic-partition has a
sequence of its own, `getSequence` finds the one that stands in `Object.prototype`, where the
updates of a topic of the name "__proto__" are written. The sequences of the names that objects
inherit are kept when the producer is initialized again. `sequence_after` says when none of this is
seen: then the sequences are those of `Sequences`.
-/

namespace KafkaJs.Producer

variable {τ : Type} [DecidableEq τ]

/-- The sequences of an initialized producer after calls of `updateSequence`, each given by its
topic-partition and its increment. -/
def sequencesAfter (calls : List (τ × Int)) : τ → Int :=
  calls.foldl
    (fun producerSequence call => updateSequence true producerSequence call.1 call.2) fun _ => 0

/-- The number of records that calls count for a topic-partition. -/
def produced (topicPartition : τ) (calls : List (τ × Int)) : Int :=
  ((calls.filter fun call => call.1 = topicPartition).map Prod.snd).sum

/-- A batch of this size leaves the count below the maximum. -/
def FitsBelow (count size : Int) : Prop := count % 2 ^ 31 + size < 2 ^ 31 - 1

/-- `FitsBelow` is decidable by an integer comparison. -/
instance (count size : Int) : Decidable (FitsBelow count size) :=
  inferInstanceAs (Decidable (_ < _))

/-- Every batch of the topic-partition leaves its count below the maximum or ends where the count
starts again from zero. -/
def NeverSkips (topicPartition : τ) (calls : List (τ × Int)) : Prop :=
  ∀ before size, before ++ [(topicPartition, size)] <+: calls →
    FitsBelow (produced topicPartition before) size ∨
      (produced topicPartition before + size) % 2 ^ 31 = 0

/-! ## One update -/

/-- An update of the topic-partition rotates its sequence. -/
theorem updateSequence_self (producerSequence : τ → Int) (topicPartition : τ) (increment : Int) :
    updateSequence true producerSequence topicPartition increment topicPartition =
      rotate (producerSequence topicPartition) increment := by
  show Function.update _ _ _ _ = _
  rw [Function.update_self]
  rfl

/-- An update of another topic-partition leaves the sequence alone. -/
theorem updateSequence_of_ne (producerSequence : τ → Int) {topicPartition other : τ}
    (increment : Int) (h : topicPartition ≠ other) :
    updateSequence true producerSequence other increment topicPartition =
      producerSequence topicPartition :=
  Function.update_of_ne h _ _

/-- A sequence below the maximum stays there. -/
theorem rotate_range {previous increment : Int} (hprevious : 0 ≤ previous)
    (hincrement : 0 < increment) :
    0 ≤ rotate previous increment ∧ rotate previous increment < int32MaxValue := by
  unfold rotate
  split
  · exact ⟨Int.le_refl 0, by decide⟩
  · omega

/-- An update is undone by the opposite one exactly if it was not rotated. -/
theorem rotate_rotate_neg_iff {previous increment : Int} (hprevious : 0 ≤ previous)
    (hmax : previous < int32MaxValue) (hincrement : 0 < increment) :
    rotate (rotate previous increment) (-increment) = previous ↔
      previous + increment < int32MaxValue := by
  constructor
  · intro h
    by_contra hrotated
    have hzero : rotate previous increment = 0 := if_pos (by omega)
    have hopposite : rotate 0 (-increment) = 0 + -increment := rotate_of_lt (by omega)
    rw [hzero, hopposite] at h
    omega
  · intro h
    have hback : previous + increment + -increment < int32MaxValue := by omega
    rw [rotate_of_lt h, rotate_of_lt hback]
    omega

/-- An update counts modulo `2 ^ 31` exactly if it stays below the maximum or ends at a multiple. -/
theorem rotate_count_iff {count increment : Int} (hincrement : 0 < increment)
    (hmax : count % 2 ^ 31 < int32MaxValue) :
    rotate (count % 2 ^ 31) increment = (count + increment) % 2 ^ 31 ↔
      FitsBelow count increment ∨ (count + increment) % 2 ^ 31 = 0 := by
  unfold FitsBelow
  have hmaximum : int32MaxValue = 2 ^ 31 - 1 := rfl
  by_cases h : int32MaxValue ≤ count % 2 ^ 31 + increment
  · rw [rotate, if_pos h]
    constructor
    · intro hzero
      exact Or.inr hzero.symm
    · rintro (hbelow | hzero)
      · omega
      · exact hzero.symm
  · rw [rotate_of_lt (by omega)]
    constructor
    · intro _
      exact Or.inl (by omega)
    · intro _
      omega

/-! ## Runs -/

/-- The last call comes after the others. -/
theorem sequencesAfter_concat (calls : List (τ × Int)) (call : τ × Int) :
    sequencesAfter (calls ++ [call]) =
      updateSequence true (sequencesAfter calls) call.1 call.2 := by
  rw [sequencesAfter, List.foldl_append]
  rfl

/-- A call counts its records. -/
theorem produced_concat_self (topicPartition : τ) (calls : List (τ × Int)) (size : Int) :
    produced topicPartition (calls ++ [(topicPartition, size)]) =
      produced topicPartition calls + size := by
  simp [produced]

/-- A call for another topic-partition counts nothing. -/
theorem produced_concat_of_ne {topicPartition other : τ} (calls : List (τ × Int)) (size : Int)
    (h : topicPartition ≠ other) :
    produced topicPartition (calls ++ [(other, size)]) = produced topicPartition calls := by
  simp [produced, Ne.symm h]

/-- With batches of positive sizes no sequence leaves its range. -/
theorem sequencesAfter_range {calls : List (τ × Int)} (hsizes : ∀ call ∈ calls, 0 < call.2)
    (topicPartition : τ) :
    0 ≤ sequencesAfter calls topicPartition ∧
      sequencesAfter calls topicPartition < int32MaxValue := by
  induction calls using List.reverseRecOn with
  | nil =>
      show (0 : Int) ≤ 0 ∧ (0 : Int) < int32MaxValue
      decide
  | append_singleton calls call ih =>
      obtain ⟨other, size⟩ := call
      obtain ⟨hlower, hupper⟩ := ih fun call hmem => hsizes call (List.mem_append_left _ hmem)
      rw [sequencesAfter_concat]
      by_cases h : topicPartition = other
      · subst h
        rw [updateSequence_self]
        exact rotate_range hlower (hsizes _ (List.mem_append_right _ (List.mem_singleton_self _)))
      · rw [updateSequence_of_ne _ _ h]
        exact ⟨hlower, hupper⟩

/-- The sequence follows the count exactly if no batch makes it skip. -/
theorem total_iff {topicPartition : τ} {calls : List (τ × Int)}
    (hsizes : ∀ call ∈ calls, 0 < call.2) :
    (∀ before, before <+: calls →
      sequencesAfter before topicPartition = produced topicPartition before % 2 ^ 31) ↔
      NeverSkips topicPartition calls := by
  constructor
  · intro h before size hinit
    have hbefore := h before ((List.prefix_append _ _).trans hinit)
    have hafter := h _ hinit
    have hmem := hinit.subset (List.mem_append_right before (List.mem_singleton_self _))
    have hmax := (sequencesAfter_range (fun call hcall =>
      hsizes call (((List.prefix_append before _).trans hinit).subset hcall)) topicPartition).2
    rw [hbefore] at hmax
    rw [sequencesAfter_concat, updateSequence_self, hbefore, produced_concat_self] at hafter
    exact (rotate_count_iff (hsizes _ hmem) hmax).mp hafter
  · intro h before hinit
    -- along the prefix, from its first call on
    induction before using List.reverseRecOn with
    | nil => rfl
    | append_singleton before call ih =>
        obtain ⟨other, size⟩ := call
        have hcount := ih ((List.prefix_append _ _).trans hinit)
        rw [sequencesAfter_concat]
        by_cases hother : topicPartition = other
        · subst hother
          have hmem := hinit.subset (List.mem_append_right before (List.mem_singleton_self _))
          have hmax := (sequencesAfter_range (fun call hcall =>
            hsizes call (((List.prefix_append before _).trans hinit).subset hcall))
              topicPartition).2
          rw [hcount] at hmax
          rw [updateSequence_self, hcount, produced_concat_self]
          exact (rotate_count_iff (hsizes _ hmem) hmax).mpr (h before size hinit)
        · rw [updateSequence_of_ne _ _ hother, produced_concat_of_ne _ _ hother]
          exact hcount

/-! ## The object -/

/-- `producerSequence`, by topic and partition. The sequences of a topic whose name objects inherit
stand in the inherited value: in `Object.prototype` for "__proto__", in a function for any other. -/
def ProducerSequence : Type := String → Int → Option Int

namespace ProducerSequence

/-- `producerSequence[topic][partition]`: what an object or a function does not have it inherits
from `Object.prototype`. -/
def lookup (producerSequence : ProducerSequence) (topic : String) (partition : Int) : Option Int :=
  (producerSequence topic partition).or (producerSequence "__proto__" partition)

/-- `producerSequence[topic][partition] = sequence`. -/
def store (producerSequence : ProducerSequence) (topic : String) (partition sequence : Int) :
    ProducerSequence := fun other otherPartition =>
  if other = topic ∧ otherPartition = partition then some sequence
  else producerSequence other otherPartition

/-- A successful `initProducerId`: the object is a new one, the inherited values are not. -/
def reset (producerSequence : ProducerSequence) : ProducerSequence := fun topic partition =>
  if topic ∈ Data.inheritedNames then producerSequence topic partition else none

/-- `getSequence`. The sequence that was found is stored. -/
def getSequence (initialized : Bool) (producerSequence : ProducerSequence) (topic : String)
    (partition : Int) : Int × ProducerSequence :=
  if initialized then
    let sequence := (producerSequence.lookup topic partition).getD 0
    (sequence, producerSequence.store topic partition sequence)
  else (0, producerSequence)

/-- `updateSequence`. -/
def updateSequence (initialized : Bool) (producerSequence : ProducerSequence) (topic : String)
    (partition increment : Int) : ProducerSequence :=
  if initialized then
    let previous := getSequence initialized producerSequence topic partition
    previous.2.store topic partition (rotate previous.1 increment)
  else producerSequence

/-- The sequence of a topic-partition of an initialized producer. -/
def sequence (producerSequence : ProducerSequence) (topicPartition : String × Int) : Int :=
  (getSequence true producerSequence topicPartition.1 topicPartition.2).1

/-- The object of an initialized producer after a call of `updateSequence`. -/
def update (producerSequence : ProducerSequence) (call : (String × Int) × Int) :
    ProducerSequence :=
  updateSequence true producerSequence call.1.1 call.1.2 call.2

/-- The object after several calls. -/
def after (producerSequence : ProducerSequence) (calls : List ((String × Int) × Int)) :
    ProducerSequence :=
  calls.foldl update producerSequence

/-- The sequence of a topic-partition counts its records in a field of 31 bits after every one of
the calls, and after all of them a batch that fails to be produced is taken back. -/
structure Counts (producerSequence : ProducerSequence) (topicPartition : String × Int)
    (calls : List ((String × Int) × Int)) (size : Int) : Prop where
  range : ∀ before, before <+: calls →
    0 ≤ (producerSequence.after before).sequence topicPartition ∧
      (producerSequence.after before).sequence topicPartition ≤ 2 ^ 31 - 1
  total : ∀ before, before <+: calls →
    (producerSequence.after before).sequence topicPartition =
      produced topicPartition before % 2 ^ 31
  restores :
    (((producerSequence.after calls).update (topicPartition, size)).update
        (topicPartition, -size)).sequence topicPartition =
      (producerSequence.after calls).sequence topicPartition

/-- The topic-partition starts from zero; and until it has a sequence of its own, the updates of
"__proto__" for the same partition are all rotated to zero. -/
structure Unshadowed (producerSequence : ProducerSequence) (topicPartition : String × Int)
    (calls : List ((String × Int) × Int)) : Prop where
  start : producerSequence.sequence topicPartition = 0
  missing : producerSequence topicPartition.1 topicPartition.2 = none →
    topicPartition.1 ≠ "__proto__" →
    ∀ before size, before ++ [(("__proto__", topicPartition.2), size)] <+: calls →
      topicPartition ∉ before.map Prod.fst → int32MaxValue ≤ size

variable {producerSequence : ProducerSequence} {topicPartition : String × Int}
  {calls : List ((String × Int) × Int)} {call : (String × Int) × Int}

/-- Where a topic-partition has no sequence, the one in `Object.prototype` is found. -/
theorem sequence_of_none
    (h : producerSequence topicPartition.1 topicPartition.2 = none) :
    producerSequence.sequence topicPartition =
      (producerSequence "__proto__" topicPartition.2).getD 0 := by
  show ((producerSequence topicPartition.1 topicPartition.2).or _).getD 0 = _
  rw [h, Option.none_or]

/-- A sequence of its own is found first. -/
theorem sequence_of_some {sequence : Int}
    (h : producerSequence topicPartition.1 topicPartition.2 = some sequence) :
    producerSequence.sequence topicPartition = sequence := by
  show ((producerSequence topicPartition.1 topicPartition.2).or _).getD 0 = _
  rw [h, Option.some_or, Option.getD_some]

/-- The sequence of "__proto__" is the one in `Object.prototype`. -/
theorem sequence_proto (producerSequence : ProducerSequence) (partition : Int) :
    producerSequence.sequence ("__proto__", partition) =
      (producerSequence "__proto__" partition).getD 0 := by
  show ((producerSequence "__proto__" partition).or (producerSequence "__proto__" partition)).getD 0
    = _
  rw [Option.or_self]

/-- An update stores the next sequence. -/
theorem update_self (producerSequence : ProducerSequence) (call : (String × Int) × Int) :
    producerSequence.update call call.1.1 call.1.2 =
      some (rotate (producerSequence.sequence call.1) call.2) :=
  if_pos ⟨rfl, rfl⟩

/-- An update stores nothing under other topic-partitions. -/
theorem update_of_ne (h : topicPartition ≠ call.1) :
    producerSequence.update call topicPartition.1 topicPartition.2 =
      producerSequence topicPartition.1 topicPartition.2 := by
  have hother : ¬ (topicPartition.1 = call.1.1 ∧ topicPartition.2 = call.1.2) :=
    fun hsame => h (Prod.ext hsame.1 hsame.2)
  exact (if_neg hother).trans (if_neg hother)

/-- The sequence of an updated topic-partition. -/
theorem sequence_update (producerSequence : ProducerSequence) (topicPartition : String × Int)
    (increment : Int) :
    (producerSequence.update (topicPartition, increment)).sequence topicPartition =
      rotate (producerSequence.sequence topicPartition) increment :=
  sequence_of_some (update_self producerSequence (topicPartition, increment))

/-- The last update comes after the others. -/
theorem after_concat (producerSequence : ProducerSequence) (calls : List ((String × Int) × Int))
    (call : (String × Int) × Int) :
    producerSequence.after (calls ++ [call]) = (producerSequence.after calls).update call := by
  rw [after, List.foldl_append]
  rfl

/-- Without updates of its own a topic-partition has the sequence of the start or none. -/
theorem after_of_notMem (h : topicPartition ∉ calls.map Prod.fst) :
    producerSequence.after calls topicPartition.1 topicPartition.2 =
      producerSequence topicPartition.1 topicPartition.2 := by
  induction calls using List.reverseRecOn with
  | nil => rfl
  | append_singleton calls call ih =>
      rw [List.map_append, List.mem_append, not_or, List.map_singleton, List.mem_singleton] at h
      rw [after_concat, update_of_ne h.2]
      exact ih h.1

/-! ## What shows through -/

/-- After some calls the topic-partition has the sequence of `sequencesAfter`, or none yet, where
zero shows through. -/
structure Tracks (producerSequence : ProducerSequence) (topicPartition : String × Int)
    (before : List ((String × Int) × Int)) : Prop where
  own : ∀ sequence, producerSequence.after before topicPartition.1 topicPartition.2 =
    some sequence → sequence = sequencesAfter before topicPartition
  missing : producerSequence.after before topicPartition.1 topicPartition.2 = none →
    topicPartition ∉ before.map Prod.fst ∧ sequencesAfter before topicPartition = 0 ∧
      ((producerSequence.after before) "__proto__" topicPartition.2).getD 0 = 0

/-- A sequence that is tracked is that of `Sequences`. -/
theorem Tracks.sequence_eq {before : List ((String × Int) × Int)}
    (h : Tracks producerSequence topicPartition before) :
    (producerSequence.after before).sequence topicPartition =
      sequencesAfter before topicPartition := by
  cases hown : producerSequence.after before topicPartition.1 topicPartition.2 with
  | some sequence => rw [sequence_of_some hown, h.own sequence hown]
  | none =>
      obtain ⟨-, hzero, hproto⟩ := h.missing hown
      rw [sequence_of_none hown, hproto, hzero]

/-- The sequence of the topic-partition is tracked where nothing shows through. -/
theorem Unshadowed.tracks (h : producerSequence.Unshadowed topicPartition calls)
    {before : List ((String × Int) × Int)} (hearlier : before <+: calls) :
    Tracks producerSequence topicPartition before := by
  induction before using List.reverseRecOn with
  | nil =>
      refine ⟨fun sequence hown => ?_, fun hnone => ⟨List.not_mem_nil, rfl, ?_⟩⟩
      · exact (sequence_of_some hown).symm.trans h.start
      · exact (sequence_of_none hnone).symm.trans h.start
  | append_singleton before call ih =>
      have htracks := ih ((List.prefix_append _ _).trans hearlier)
      obtain ⟨called, size⟩ := call
      by_cases hself : topicPartition = called
      · -- an update of its own stores the next sequence
        subst hself
        have hown : producerSequence.after (before ++ [(topicPartition, size)]) topicPartition.1
            topicPartition.2 = some (sequencesAfter (before ++ [(topicPartition, size)])
              topicPartition) := by
          rw [after_concat, sequencesAfter_concat, updateSequence_self, ← htracks.sequence_eq]
          exact update_self _ (topicPartition, size)
        exact ⟨fun sequence hsequence => Option.some.inj (hsequence.symm.trans hown),
          fun hnone => absurd (hown.symm.trans hnone) (Option.some_ne_none _)⟩
      · have hkept : producerSequence.after (before ++ [(called, size)]) topicPartition.1
            topicPartition.2 = producerSequence.after before topicPartition.1 topicPartition.2 := by
          rw [after_concat]
          exact update_of_ne hself
        have hcount : sequencesAfter (before ++ [(called, size)]) topicPartition =
            sequencesAfter before topicPartition := by
          rw [sequencesAfter_concat]
          exact updateSequence_of_ne _ _ hself
        refine ⟨fun sequence hsequence => ?_, fun hnone => ?_⟩
        · rw [hcount]
          exact htracks.own sequence (hkept.symm.trans hsequence)
        · obtain ⟨hnotMem, hzero, hproto⟩ := htracks.missing (hkept.symm.trans hnone)
          refine ⟨?_, hcount.trans hzero, ?_⟩
          · rw [List.map_append, List.mem_append, not_or, List.map_singleton, List.mem_singleton]
            exact ⟨hnotMem, hself⟩
          · rw [after_concat]
            by_cases hcalled : called = ("__proto__", topicPartition.2)
            · -- the update of `Object.prototype` is rotated
              subst hcalled
              have hmissing := (after_of_notMem hnotMem).symm.trans (hkept.symm.trans hnone)
              have hname : topicPartition.1 ≠ "__proto__" :=
                fun hname => hself (Prod.ext hname rfl)
              have hlarge := h.missing hmissing hname before size hearlier hnotMem
              have hprevious := hproto ▸ sequence_proto (producerSequence.after before)
                topicPartition.2
              have hstored := update_self (producerSequence.after before)
                (("__proto__", topicPartition.2), size)
              rw [hprevious, rotate, if_pos (by omega)] at hstored
              exact congrArg (Option.getD · 0) hstored
            · have hother : (producerSequence.after before).update (called, size) "__proto__"
                  topicPartition.2 = producerSequence.after before "__proto__" topicPartition.2 :=
                @update_of_ne _ ("__proto__", topicPartition.2) (called, size) (Ne.symm hcalled)
              rw [hother]
              exact hproto

/-- Where nothing shows through, the sequences are those of `Sequences`. -/
theorem sequence_after (h : producerSequence.Unshadowed topicPartition calls)
    {before : List ((String × Int) × Int)} (hearlier : before <+: calls) :
    (producerSequence.after before).sequence topicPartition =
      sequencesAfter before topicPartition :=
  (h.tracks hearlier).sequence_eq

/-- Before its first update a topic-partition has no records. -/
theorem produced_of_notMem {before : List ((String × Int) × Int)}
    (h : topicPartition ∉ before.map Prod.fst) : produced topicPartition before = 0 := by
  have hnone : before.filter (fun call => call.1 = topicPartition) = [] := by
    rw [List.filter_eq_nil_iff]
    intro call hmem hsame
    exact h (List.mem_map.mpr ⟨call, hmem, of_decide_eq_true hsame⟩)
  rw [produced, hnone]
  rfl

/-- Where the sequences count the records, nothing shows through. -/
theorem unshadowed_of_total (hsizes : ∀ call ∈ calls, 0 < call.2)
    (htotal : ∀ before, before <+: calls →
      (producerSequence.after before).sequence topicPartition =
        produced topicPartition before % 2 ^ 31) :
    producerSequence.Unshadowed topicPartition calls where
  start := htotal [] List.nil_prefix
  missing := by
    intro hmissing hname before size hearlier hnotMem
    have hself : topicPartition ≠ ("__proto__", topicPartition.2) :=
      fun hself => hname (congrArg Prod.fst hself)
    have hafter : topicPartition ∉
        (before ++ [(("__proto__", topicPartition.2), size)]).map Prod.fst := by
      rw [List.map_append, List.mem_append, not_or, List.map_singleton, List.mem_singleton]
      exact ⟨hnotMem, hself⟩
    -- what shows through is zero before and after the update of `Object.prototype`
    have hbefore := htotal before ((List.prefix_append _ _).trans hearlier)
    have hnext := htotal _ hearlier
    rw [produced_of_notMem hnotMem, sequence_of_none ((after_of_notMem hnotMem).trans hmissing),
      ← sequence_proto] at hbefore
    rw [produced_of_notMem hafter, sequence_of_none ((after_of_notMem hafter).trans hmissing),
      ← sequence_proto, after_concat, sequence_update, hbefore] at hnext
    have hpositive := hsizes _ (hearlier.subset
      (List.mem_append_right before (List.mem_singleton_self _)))
    by_contra hsmall
    rw [rotate, if_neg (by omega)] at hnext
    omega

/-- The sequences of a process in which nothing was produced yet. -/
def empty : ProducerSequence := fun _ _ => none

/-- Two batches of a topic that end where the count starts again. -/
def sampleCalls : List ((String × Int) × Int) :=
  [(("orders", 0), 2 ^ 31 - 100), (("orders", 0), 100)]

end ProducerSequence

end KafkaJs.Producer
