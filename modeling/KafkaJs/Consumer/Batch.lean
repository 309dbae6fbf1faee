import KafkaJs.Consumer.FilterAbortedMessages
import Mathlib.Data.List.TakeWhile

/-!
# Fetched batches

`PartitionLog` is the content of a partition: record batches with disjoint ranges of offsets,
from which compaction may have removed any records. A fetch returns a run of whole record batches,
beginning with the first one whose last offset is not below the fetched offset. `Batch` is what
the consumer makes of it. `mem_rawMessages` says that such a run skips no record, and
`Batch.IsFetched.lastOffset_covers` that `lastOffset` never reaches beyond what was fetched.
-/

namespace KafkaJs.Consumer

/-- A record batch of the log, with the records that compaction has left. -/
structure RecordBatch where
  baseOffset : Int
  lastOffset : Int
  records : List Message
  range : baseOffset ≤ lastOffset
  within : ∀ record ∈ records, baseOffset ≤ record.offset ∧ record.offset ≤ lastOffset
  increasing : records.Pairwise fun a b => a.offset < b.offset

/-- The record batches of a partition. -/
structure PartitionLog where
  batches : List RecordBatch
  ordered : batches.Pairwise fun a b => a.lastOffset < b.baseOffset

/-- All records of the partition. -/
def PartitionLog.records (log : PartitionLog) : List Message :=
  log.batches.flatMap RecordBatch.records

/-- The run of record batches that a fetch returns, with the number of batches that fit into the
response. -/
def PartitionLog.fetch (log : PartitionLog) (offset : Int) (count : Nat) : List RecordBatch :=
  (log.batches.dropWhile fun batch => batch.lastOffset < offset).take count

/-- `Batch`: the messages of one fetch of a partition. -/
structure Batch where
  fetchedOffset : Int
  highWatermark : Int
  rawMessages : List Message
  messagesWithinOffset : List Message
  messages : List Message
  deriving DecidableEq, Repr

/-- The constructor of `Batch`. -/
def Batch.create (fetchedOffset highWatermark : Int) (rawMessages : List Message)
    (abortedTransactions : List AbortedTransaction) : Except KafkaError Batch :=
  let messagesWithinOffset := rawMessages.filter fun message => fetchedOffset ≤ message.offset
  (exposed messagesWithinOffset abortedTransactions).map fun messages =>
    { fetchedOffset := fetchedOffset
      highWatermark := highWatermark
      rawMessages := rawMessages
      messagesWithinOffset := messagesWithinOffset
      messages := messages }

/-- `isEmpty`. -/
def Batch.isEmpty (batch : Batch) : Bool := batch.messages.isEmpty

/-- `isEmptyIncludingFiltered`. -/
def Batch.isEmptyIncludingFiltered (batch : Batch) : Bool := batch.messagesWithinOffset.isEmpty

/-- `isEmptyDueToFiltering`. -/
def Batch.isEmptyDueToFiltering (batch : Batch) : Bool :=
  batch.isEmpty && !batch.rawMessages.isEmpty

/-- `isEmptyDueToLogCompactedMessages`. -/
def Batch.isEmptyDueToLogCompactedMessages (batch : Batch) : Bool :=
  !batch.rawMessages.isEmpty && batch.isEmptyIncludingFiltered

/-- `lastOffset`. -/
def Batch.lastOffset (batch : Batch) : Int :=
  if batch.isEmptyDueToLogCompactedMessages then batch.fetchedOffset
  else
    match batch.messagesWithinOffset.getLast? with
    | none => batch.highWatermark - 1
    | some message => message.offset

/-! ## Runs of the log -/

section Runs

variable {log : PartitionLog} {offset : Int} {count : Nat}

/-- A fetch returns batches of the log, in its order. -/
theorem fetch_sublist : (log.fetch offset count).Sublist log.batches :=
  (List.take_sublist _ _).trans (List.dropWhile_sublist _)

/-- The batches that a run leaves out at its front end before the fetched offset. -/
theorem mem_dropWhile {batch : RecordBatch} (hmem : batch ∈ log.batches)
    (hreach : offset ≤ batch.lastOffset) :
    batch ∈ log.batches.dropWhile fun batch => batch.lastOffset < offset := by
  rw [← List.takeWhile_append_dropWhile (p := fun batch : RecordBatch => batch.lastOffset < offset)
    (l := log.batches), List.mem_append] at hmem
  refine hmem.resolve_left fun hfront => ?_
  have hbefore := List.mem_takeWhile_imp hfront
  simp only [decide_eq_true_eq] at hbefore
  omega

/-- A run skips no batch: one that reaches the fetched offset and does not come after the run
belongs to it. -/
theorem mem_fetch {batch other : RecordBatch} (hmem : batch ∈ log.batches)
    (hreach : offset ≤ batch.lastOffset) (hother : other ∈ log.fetch offset count)
    (hbefore : batch.baseOffset ≤ other.lastOffset) : batch ∈ log.fetch offset count := by
  have hrest := mem_dropWhile hmem hreach
  have hordered := log.ordered.sublist (List.dropWhile_sublist
    fun batch : RecordBatch => decide (batch.lastOffset < offset))
  rw [← List.take_append_drop count (log.batches.dropWhile _), List.pairwise_append] at hordered
  rw [← List.take_append_drop count (log.batches.dropWhile _), List.mem_append] at hrest
  refine hrest.resolve_right fun hlater => ?_
  have hafter := hordered.2.2 other hother batch hlater
  omega

/-- Every batch of a run reaches the fetched offset. -/
theorem le_lastOffset_of_mem_fetch {batch : RecordBatch}
    (hmem : batch ∈ log.fetch offset count) : offset ≤ batch.lastOffset := by
  have hrest := List.mem_of_mem_take hmem
  have hordered := log.ordered.sublist (List.dropWhile_sublist
    fun batch : RecordBatch => decide (batch.lastOffset < offset))
  cases hcases : log.batches.dropWhile fun batch : RecordBatch =>
      decide (batch.lastOffset < offset) with
  | nil =>
      rw [hcases] at hrest
      cases hrest
  | cons first later =>
      have hfirst : offset ≤ first.lastOffset := by
        have hnot := List.head_dropWhile_not (fun batch : RecordBatch =>
          decide (batch.lastOffset < offset)) (l := log.batches) (by simp [hcases])
        simp only [hcases, List.head_cons, decide_eq_false_iff_not, not_lt] at hnot
        exact hnot
      rw [hcases] at hrest hordered
      rcases List.mem_cons.mp hrest with rfl | hlater
      · exact hfirst
      · have hafter := (List.pairwise_cons.mp hordered).1 batch hlater
        have hrange := batch.range
        omega

/-- A run contains every record of the log from the fetched offset to its own end. -/
theorem mem_rawMessages {record : Message} {other : RecordBatch} (hmem : record ∈ log.records)
    (hfrom : offset ≤ record.offset) (hother : other ∈ log.fetch offset count)
    (hto : record.offset ≤ other.lastOffset) :
    record ∈ (log.fetch offset count).flatMap RecordBatch.records := by
  obtain ⟨batch, hbatch, hrecord⟩ := List.mem_flatMap.mp hmem
  obtain ⟨hbase, hlast⟩ := batch.within record hrecord
  refine List.mem_flatMap.mpr ⟨batch, mem_fetch hbatch ?_ hother ?_, hrecord⟩
  · omega
  · omega

/-- The records of a run have increasing offsets. -/
theorem rawMessages_increasing :
    ((log.fetch offset count).flatMap RecordBatch.records).Pairwise
      fun a b => a.offset < b.offset := by
  rw [List.pairwise_flatMap]
  refine ⟨fun batch _ => batch.increasing, (log.ordered.sublist fetch_sublist).imp ?_⟩
  intro first second hlt a ha b hb
  have hfirst := (first.within a ha).2
  have hsecond := (second.within b hb).1
  omega

end Runs

/-! ## Batches of a run -/

/-- The batch was made from a run of the log. -/
def Batch.IsFetched (log : PartitionLog) (batch : Batch) : Prop :=
  ∃ count abortedTransactions, Batch.create batch.fetchedOffset batch.highWatermark
    ((log.fetch batch.fetchedOffset count).flatMap RecordBatch.records) abortedTransactions =
      .ok batch

section Fetched

variable {log : PartitionLog} {batch : Batch}

/-- The scan only leaves messages out. -/
theorem filterFrom_sublist {messages kept : List Message} {scan : Scan}
    (h : filterFrom scan messages = .ok kept) : kept.Sublist messages := by
  induction messages generalizing scan kept with
  | nil =>
      cases h
      exact List.Sublist.refl _
  | cons message messages ih =>
      unfold filterFrom at h
      split at h
      · cases h
      · next next keep _ =>
          cases hrest : filterFrom next messages with
          | error error =>
              rw [hrest] at h
              cases h
          | ok rest =>
              rw [hrest] at h
              cases h
              have hsublist := ih hrest
              cases keep with
              | true => exact hsublist.cons_cons message
              | false => exact hsublist.cons message

/-- The exposed messages are some of the given ones, in their order. -/
theorem exposed_sublist {messages kept : List Message}
    {abortedTransactions : List AbortedTransaction}
    (h : exposed messages abortedTransactions = .ok kept) : kept.Sublist messages := by
  unfold exposed filterAbortedMessages at h
  split at h
  · cases h
    exact List.filter_sublist
  · cases hscan : filterFrom ⟨abortedTransactions, ∅⟩ messages with
    | error error =>
        rw [hscan] at h
        cases h
    | ok scanned =>
        rw [hscan] at h
        cases h
        exact List.filter_sublist.trans (filterFrom_sublist hscan)

/-- A batch made from the response to a fetch. -/
theorem Batch.isFetched_of_create {offset highWatermark : Int} {count : Nat}
    {abortedTransactions : List AbortedTransaction}
    (h : Batch.create offset highWatermark
      ((log.fetch offset count).flatMap RecordBatch.records) abortedTransactions = .ok batch) :
    batch.IsFetched log ∧ batch.fetchedOffset = offset := by
  have hfields : batch.fetchedOffset = offset ∧ batch.highWatermark = highWatermark := by
    unfold Batch.create at h
    dsimp only at h
    cases hexposed : exposed (((log.fetch offset count).flatMap RecordBatch.records).filter
        fun message => offset ≤ message.offset) abortedTransactions with
    | error error =>
        rw [hexposed] at h
        cases h
    | ok messages =>
        rw [hexposed] at h
        cases h
        exact ⟨rfl, rfl⟩
  rw [Batch.IsFetched, hfields.1, hfields.2]
  exact ⟨⟨count, abortedTransactions, h⟩, rfl⟩

/-- The fields of a fetched batch. -/
theorem Batch.IsFetched.fields (h : batch.IsFetched log) :
    ∃ count, batch.rawMessages =
        (log.fetch batch.fetchedOffset count).flatMap RecordBatch.records ∧
      batch.messagesWithinOffset = batch.rawMessages.filter (fun message =>
        batch.fetchedOffset ≤ message.offset) ∧
      batch.messages.Sublist batch.messagesWithinOffset := by
  obtain ⟨count, abortedTransactions, hcreate⟩ := h
  unfold Batch.create at hcreate
  dsimp only at hcreate
  cases hexposed : exposed
      (((log.fetch batch.fetchedOffset count).flatMap RecordBatch.records).filter fun message =>
        batch.fetchedOffset ≤ message.offset) abortedTransactions with
  | error error =>
      rw [hexposed] at hcreate
      cases hcreate
  | ok messages =>
      rw [hexposed, Except.map, Except.ok.injEq] at hcreate
      rw [← hcreate]
      exact ⟨count, rfl, rfl, exposed_sublist hexposed⟩

/-- The exposed messages have increasing offsets. -/
theorem Batch.IsFetched.increasing (h : batch.IsFetched log) :
    batch.messages.Pairwise fun a b => a.offset < b.offset := by
  obtain ⟨count, hraw, hwithin, hmessages⟩ := h.fields
  refine List.Pairwise.sublist (hmessages.trans ?_) (@rawMessages_increasing log
    batch.fetchedOffset count)
  rw [hwithin, hraw]
  exact List.filter_sublist

/-- A record of the log that lies between the fetched offset and a raw message is within the
batch. -/
theorem Batch.IsFetched.mem_within (h : batch.IsFetched log) {record message : Message}
    (hrecord : record ∈ log.records) (hfrom : batch.fetchedOffset ≤ record.offset)
    (hmessage : message ∈ batch.rawMessages)
    (hto : record.offset ≤ message.offset ∨ record.offset ≤ batch.fetchedOffset) :
    record ∈ batch.messagesWithinOffset := by
  obtain ⟨count, hraw, hwithin, -⟩ := h.fields
  rw [hraw] at hmessage
  obtain ⟨other, hother, hmem⟩ := List.mem_flatMap.mp hmessage
  have hreach := le_lastOffset_of_mem_fetch hother
  have hlast := (other.within message hmem).2
  rw [hwithin, List.mem_filter, hraw]
  refine ⟨mem_rawMessages hrecord hfrom hother ?_, by simpa using hfrom⟩
  omega

/-- A batch that carries messages ends at or after the fetched offset, and every record of the log
up to its end is within it. -/
theorem Batch.IsFetched.lastOffset_covers (h : batch.IsFetched log)
    (hraw : batch.rawMessages ≠ []) :
    batch.fetchedOffset ≤ batch.lastOffset ∧ ∀ record ∈ log.records,
      batch.fetchedOffset ≤ record.offset → record.offset ≤ batch.lastOffset →
      record ∈ batch.messagesWithinOffset := by
  obtain ⟨first, hfirst⟩ := List.exists_mem_of_ne_nil _ hraw
  obtain ⟨count, -, hwithin, -⟩ := h.fields
  unfold Batch.lastOffset
  split
  · exact ⟨le_rfl, fun record hrecord hfrom hto => h.mem_within hrecord hfrom hfirst (Or.inr hto)⟩
  · next hnot =>
      split
      · next hnone =>
          rw [List.getLast?_eq_none_iff] at hnone
          simp [Batch.isEmptyDueToLogCompactedMessages, Batch.isEmptyIncludingFiltered, hnone,
            hraw] at hnot
      · next message hlast =>
          have hmem := List.mem_of_getLast? hlast
          rw [hwithin, List.mem_filter] at hmem
          refine ⟨by simpa using hmem.2, fun record hrecord hfrom hto => ?_⟩
          exact h.mem_within hrecord hfrom hmem.1 (Or.inl hto)

end Fetched

end KafkaJs.Consumer
