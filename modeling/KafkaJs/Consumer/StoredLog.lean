import KafkaJs.Consumer.Batch
import KafkaJs.Protocol.FetchResponse

/-!
# The log of a partition, as bytes

A broker keeps a partition as the bytes of its record batches, one after the other, and appends to
them. To a fetch it sends these bytes from the first batch on that reaches the fetched offset, cut
anywhere. `StoredLog.toLog` forgets the bytes. `fetch_of_piece` says that what is decoded of such a
piece is a fetch of this log, with as many batches as are whole in the piece, and that it still is
one when the log has grown.
-/

namespace KafkaJs.Consumer

open KafkaJs.Data KafkaJs.Protocol

/-! ## Messages -/

/-- What the consumer looks at in a decoded message. A message of a message set has no batch context
and no mark of control records. -/
def Message.of : PartitionMessage → Message
  | .record batchContext record =>
      { offset := record.offset
        key := record.key
        isControlRecord := record.isControlRecord
        batchContext := some ⟨batchContext.producerId, batchContext.inTransaction⟩ }
  | .message message =>
      { offset := message.offset
        key := message.key
        isControlRecord := false
        batchContext := none }

/-- The aborted transactions of a partition in a response; none are an empty list. -/
def abortedTransactionsOf (data : Fetch.PartitionHeader) : List AbortedTransaction :=
  (data.abortedTransactions.getD []).map fun transaction =>
    ⟨transaction.producerId, transaction.firstOffset⟩

/-! ## Stored batches -/

/-- An encoded batch with the range of offsets that it covers. -/
structure StoredBatch (codecs : Codecs) extends EncodedBatch codecs where
  lastOffset : Int
  range : firstOffset ≤ lastOffset
  within : ∀ record ∈ records, firstOffset ≤ record.offset ∧ record.offset ≤ lastOffset
  increasing : records.Pairwise fun a b => a.offset < b.offset

variable {codecs : Codecs}

namespace StoredBatch

/-- The messages of a batch. -/
def messages (batch : StoredBatch codecs) : List PartitionMessage :=
  recordsIn batch.context batch.records

/-- A message of a batch is one of its records. -/
theorem mem_messages {batch : StoredBatch codecs} {message : PartitionMessage}
    (h : message ∈ batch.messages) :
    ∃ record ∈ batch.records, message = .record batch.context record := by
  obtain ⟨record, hrecord, rfl⟩ := List.mem_map.mp h
  exact ⟨record, hrecord, rfl⟩

/-- The offset of a message lies in the range of its batch. -/
theorem within_messages {batch : StoredBatch codecs} {message : PartitionMessage}
    (h : message ∈ batch.messages) :
    batch.firstOffset ≤ (Message.of message).offset ∧
      (Message.of message).offset ≤ batch.lastOffset := by
  obtain ⟨record, hrecord, rfl⟩ := mem_messages h
  exact batch.within record hrecord

/-- The offsets of a batch lie in its range. -/
theorem within_map (batch : StoredBatch codecs) : ∀ record ∈ batch.messages.map Message.of,
    batch.firstOffset ≤ record.offset ∧ record.offset ≤ batch.lastOffset :=
  List.forall_mem_map.mpr fun _ hmessage => within_messages hmessage

/-- The offsets of the messages of a batch increase. -/
theorem increasing_messages (batch : StoredBatch codecs) :
    batch.messages.Pairwise fun a b => (Message.of a).offset < (Message.of b).offset :=
  List.pairwise_map.mpr batch.increasing

/-- The batch without its bytes. -/
def toRecordBatch (batch : StoredBatch codecs) : RecordBatch where
  baseOffset := batch.firstOffset
  lastOffset := batch.lastOffset
  records := batch.messages.map Message.of
  range := batch.range
  within := batch.within_map
  increasing := List.pairwise_map.mpr batch.increasing_messages

end StoredBatch

/-- The batches of a partition, in the order of their offsets. -/
structure StoredLog (codecs : Codecs) where
  batches : List (StoredBatch codecs)
  ordered : batches.Pairwise fun a b => a.lastOffset < b.firstOffset

namespace StoredLog

/-- The log of a new partition. -/
def empty : StoredLog codecs := ⟨[], List.Pairwise.nil⟩

/-- A batch that comes after all others keeps the log in order. -/
theorem ordered_append {log : StoredLog codecs} {batch : StoredBatch codecs}
    (h : ∀ stored ∈ log.batches, stored.lastOffset < batch.firstOffset) :
    (log.batches ++ [batch]).Pairwise fun a b => a.lastOffset < b.firstOffset := by
  rw [List.pairwise_append]
  refine ⟨log.ordered, List.pairwise_singleton _ _, fun stored hstored next hnext => ?_⟩
  cases List.mem_singleton.mp hnext
  exact h stored hstored

/-- The log with another batch, whose offsets are to come after all others. -/
def append (log : StoredLog codecs) (batch : StoredBatch codecs)
    (h : ∀ stored ∈ log.batches, stored.lastOffset < batch.firstOffset) : StoredLog codecs :=
  ⟨log.batches ++ [batch], ordered_append h⟩

/-- The log without the bytes. -/
def toLog (log : StoredLog codecs) : PartitionLog where
  batches := log.batches.map StoredBatch.toRecordBatch
  ordered := List.pairwise_map.mpr log.ordered

/-- The batches from the first one on that reaches an offset. -/
def batchesFrom (log : StoredLog codecs) (offset : Int) : List (StoredBatch codecs) :=
  log.batches.dropWhile fun batch => batch.lastOffset < offset

/-- The messages of all batches. -/
def messages (log : StoredLog codecs) : List PartitionMessage :=
  log.batches.flatMap StoredBatch.messages

/-- The records of a log are its messages. -/
theorem records_toLog (log : StoredLog codecs) :
    log.toLog.records = log.messages.map Message.of := by
  rw [PartitionLog.records, toLog, List.flatMap_map, messages, List.map_flatMap]
  rfl

/-- A fetch of the log without the bytes. -/
theorem fetch_toLog (log : StoredLog codecs) (offset : Int) (count : Nat) :
    (log.toLog.fetch offset count).flatMap RecordBatch.records =
      (((log.batchesFrom offset).take count).flatMap StoredBatch.messages).map Message.of := by
  rw [PartitionLog.fetch, toLog, batchesFrom, List.dropWhile_map, ← List.map_take,
    List.flatMap_map, List.map_flatMap]
  rfl

/-- The messages have increasing offsets. -/
theorem increasing_messages (log : StoredLog codecs) :
    log.messages.Pairwise fun a b => (Message.of a).offset < (Message.of b).offset := by
  rw [messages, List.pairwise_flatMap]
  refine ⟨fun batch _ => batch.increasing_messages, log.ordered.imp ?_⟩
  intro first second hlt a ha b hb
  have hfirst := (StoredBatch.within_messages ha).2
  have hsecond := (StoredBatch.within_messages hb).1
  omega

/-- Two messages with one offset are the same message. -/
theorem eq_of_offset {log : StoredLog codecs} {first second : PartitionMessage}
    (hfirst : first ∈ log.messages) (hsecond : second ∈ log.messages)
    (h : (Message.of first).offset = (Message.of second).offset) : first = second := by
  have hnodup : (log.messages.map fun message => (Message.of message).offset).Nodup :=
    List.pairwise_map.mpr (log.increasing_messages.imp fun hlt => ne_of_lt hlt)
  exact List.inj_on_of_nodup_map hnodup hfirst hsecond h

/-! ## Logs that grow -/

/-- The log has grown to the other one. -/
def GrowsTo (log next : StoredLog codecs) : Prop := log.batches <+: next.batches

/-- A log has grown from itself. -/
theorem GrowsTo.refl (log : StoredLog codecs) : log.GrowsTo log := List.prefix_refl _

/-- Growing twice is growing. -/
theorem GrowsTo.trans {log next last : StoredLog codecs} (h : log.GrowsTo next)
    (hlast : next.GrowsTo last) : log.GrowsTo last := List.IsPrefix.trans h hlast

/-- A log grows by a batch. -/
theorem growsTo_append {log : StoredLog codecs} {batch : StoredBatch codecs}
    (h : ∀ stored ∈ log.batches, stored.lastOffset < batch.firstOffset) :
    log.GrowsTo (log.append batch h) := List.prefix_append _ _

section GrowsTo

variable {log next : StoredLog codecs}

/-- A batch stays in the log. -/
theorem GrowsTo.mem_batches (h : log.GrowsTo next) {batch : StoredBatch codecs}
    (hmem : batch ∈ log.batches) : batch ∈ next.batches := h.subset hmem

/-- A message stays in the log. -/
theorem GrowsTo.mem_messages (h : log.GrowsTo next) {message : PartitionMessage}
    (hmem : message ∈ log.messages) : message ∈ next.messages := by
  obtain ⟨batch, hbatch, hmessage⟩ := List.mem_flatMap.mp hmem
  exact List.mem_flatMap.mpr ⟨batch, h.mem_batches hbatch, hmessage⟩

/-- What there was from an offset on is still what there is first. -/
theorem GrowsTo.batchesFrom (h : log.GrowsTo next) (offset : Int) :
    log.batchesFrom offset <+: next.batchesFrom offset := by
  obtain ⟨more, hmore⟩ := h
  rw [StoredLog.batchesFrom, StoredLog.batchesFrom, ← hmore, List.dropWhile_append]
  split
  · next hempty =>
      rw [List.isEmpty_iff.mp hempty]
      exact List.nil_prefix
  · exact List.prefix_append _ _

/-- A log that grows gives the same batches from an offset on. -/
theorem GrowsTo.take_batchesFrom (h : log.GrowsTo next) {offset : Int} {count : Nat}
    (hcount : count ≤ (log.batchesFrom offset).length) :
    (log.batchesFrom offset).take count = (next.batchesFrom offset).take count := by
  obtain ⟨more, hmore⟩ := h.batchesFrom offset
  rw [← hmore, List.take_append_of_le_length hcount]

end GrowsTo

/-! ## Pieces of the log -/

/-- The batches that a piece contains are the first ones. -/
theorem contained_eq_take (size : Nat) (batches : List (EncodedBatch codecs)) :
    ∃ count ≤ batches.length, EncodedBatch.contained size batches = batches.take count := by
  induction batches generalizing size with
  | nil => exact ⟨0, le_refl 0, rfl⟩
  | cons batch batches ih =>
      rw [EncodedBatch.contained]
      split
      · obtain ⟨count, hcount, hrest⟩ := ih (size - batch.bytes.length)
        exact ⟨count + 1, Nat.succ_le_succ hcount, by rw [hrest, List.take_succ_cons]⟩
      · exact ⟨0, Nat.zero_le _, rfl⟩

/-- What a broker sends to a fetch: the header, and the first `size` bytes of the log from the
offset on. -/
def piece (log : StoredLog codecs) (offset : Int) (header : Fetch.PartitionHeader) (size : Nat) :
    Fetch.WirePartition codecs :=
  { header, size
    batches := (log.batchesFrom offset).map StoredBatch.toEncodedBatch }

/-- The messages that are decoded of a piece are those of the first batches from the offset on. -/
theorem messagesOf_piece (log : StoredLog codecs) (offset : Int) (header : Fetch.PartitionHeader)
    (size : Nat) :
    ∃ count ≤ (log.batchesFrom offset).length,
      EncodedBatch.messagesOf (log.piece offset header size).whole =
        ((log.batchesFrom offset).take count).flatMap StoredBatch.messages := by
  obtain ⟨count, hcount, hwhole⟩ :=
    contained_eq_take (log.piece offset header size).payload.length
      (log.piece offset header size).batches
  rw [piece, List.length_map] at hcount
  refine ⟨count, hcount, ?_⟩
  rw [Fetch.WirePartition.whole, hwhole, piece, ← List.map_take, EncodedBatch.messagesOf,
    List.flatMap_map]
  rfl

/-- A piece of the log is a fetch of it, also when it has grown. -/
theorem fetch_of_piece {log next : StoredLog codecs} (h : log.GrowsTo next) (offset : Int)
    (header : Fetch.PartitionHeader) (size : Nat) :
    ∃ count,
      (EncodedBatch.messagesOf (log.piece offset header size).whole).map Message.of =
        (next.toLog.fetch offset count).flatMap RecordBatch.records := by
  obtain ⟨count, hcount, hmessages⟩ := log.messagesOf_piece offset header size
  exact ⟨count, by rw [hmessages, fetch_toLog, h.take_batchesFrom hcount]⟩

/-- What is decoded of a piece is in the log. -/
theorem mem_messages_of_piece {log : StoredLog codecs} {offset : Int}
    {header : Fetch.PartitionHeader} {size : Nat} {message : PartitionMessage}
    (h : message ∈ EncodedBatch.messagesOf (log.piece offset header size).whole) :
    message ∈ log.messages := by
  obtain ⟨count, -, hmessages⟩ := log.messagesOf_piece offset header size
  rw [hmessages] at h
  obtain ⟨batch, hbatch, hmessage⟩ := List.mem_flatMap.mp h
  exact List.mem_flatMap.mpr
    ⟨batch, (List.dropWhile_sublist _).subset (List.mem_of_mem_take hbatch), hmessage⟩

end StoredLog

end KafkaJs.Consumer
