import KafkaJs.Data.TextRecord
import KafkaJs.Data.Traversal
import KafkaJs.Protocol.ReturnedWrites

/-!
# The assigner protocol

`MemberAssignment` of `consumer/assignerProtocol.js`. What `encode` returns is `encoding`, and
`decode` makes `received` of it, whatever bytes follow: the names of the topics come back
well-formed, and a topic named `__proto__` becomes the prototype of the record.
-/

namespace KafkaJs.Consumer.AssignerProtocol

open Data Protocol

/-- A record with the partitions of each topic. -/
abbrev TopicRecord := InsertionMap Text (List Int)

/-- A decoded member assignment. -/
structure MemberAssignment where
  version : Int
  assignment : TopicRecord
  userData : Option Bytes

namespace MemberAssignment

/-- The encoder of one topic. -/
def encodeTopic (entry : Text × List Int) : Except KafkaError Encoder := do
  let encoder ← Encoder.new.writeString (some entry.1)
  encoder.writeArrayOf (entry.2.map .number) none

/-- `encode`. -/
def encode (version : Int) (assignment : TopicRecord) (userData : Bytes) :
    Except KafkaError Bytes := do
  let encoder ← Encoder.new.writeInt16 version
  let topics ← assignment.ownEntries.mapM encodeTopic
  let encoder ← encoder.writeArrayOf (topics.map .object) none
  let encoder ← encoder.writeBytes userData
  pure encoder.buffer

/-- `decodeAssignment`; a topic that is null has the property name `null`. -/
def decodeAssignment : Reader (Text × List Int) := do
  let topic ← Decoder.readString
  let partitions ← Decoder.readArray Decoder.readInt32
  pure (topic.getD (Text.ofString "null"), partitions)

/-- `indexAssignment`. -/
def indexAssignment (obj : TopicRecord) (entry : Text × List Int) : TopicRecord :=
  obj.assignProperty entry.1 entry.2

/-- The fields of a member assignment. -/
def fields : Reader MemberAssignment := do
  let version ← Decoder.readInt16
  let assignment ← Decoder.readArray decodeAssignment
  let userData ← Decoder.readBytes
  pure ⟨version, assignment.foldl indexAssignment .empty, userData⟩

/-- `decode`. -/
def decode (buffer : Bytes) : Except KafkaError (Option MemberAssignment) :=
  let decoder := Decoder.new buffer
  if ¬ decoder.canReadBytes 2 then .ok none
  else (fields decoder).map fun result => some result.1

/-! ## What is written -/

/-- The bytes of one topic. -/
def topicBytes (entry : Text × List Int) : Bytes :=
  stringBytes (some entry.1) ++ (intBytes 4 entry.2.length ++ entry.2.flatMap (intBytes 4))

/-- The bytes in front of the user data. -/
def prefixBytes (version : Int) (assignment : TopicRecord) : Bytes :=
  intBytes 2 version ++
    (intBytes 4 assignment.ownEntries.length ++ assignment.ownEntries.flatMap topicBytes)

/-- The bytes of a member assignment. -/
def encoding (version : Int) (assignment : TopicRecord) (userData : Bytes) : Bytes :=
  prefixBytes version assignment ++ (intBytes 4 userData.length ++ userData)

/-- A topic that can be written. -/
structure Writable (entry : Text × List Int) : Prop where
  name : entry.1.toUtf8.length < 2 ^ 15
  length : entry.2.length < 2 ^ 31
  partitions : ∀ partition ∈ entry.2, FitsInt 4 partition

/-- A member assignment that can be written. -/
structure Encodable (version : Int) (assignment : TopicRecord) : Prop where
  version : FitsInt 2 version
  length : assignment.ownEntries.length < 2 ^ 31
  topics : ∀ entry ∈ assignment.ownEntries, Writable entry

variable {version : Int} {assignment : TopicRecord} {userData bytes : Bytes}

/-- A topic that is encoded is writable and holds its bytes. -/
theorem encodeTopic_eq_ok {entry : Text × List Int} {encoder : Encoder}
    (h : encodeTopic entry = .ok encoder) :
    Writable entry ∧ encoder.Holds (topicBytes entry) := by
  obtain ⟨middle, hname, hpartitions⟩ := bind_eq_ok h
  obtain ⟨hshort, hmiddle⟩ := holds_of_writeString Encoder.holds_new hname
  obtain ⟨⟨hlength, hfits⟩, hlast⟩ := holds_of_writeNumbers hmiddle hpartitions
  exact ⟨⟨hshort, hlength, hfits⟩, hlast⟩

/-- Topics that are encoded are all writable, and each holds its bytes. -/
theorem mapM_encodeTopic_eq_ok {entries : List (Text × List Int)} {encoders : List Encoder}
    (h : entries.mapM encodeTopic = .ok encoders) :
    (∀ entry ∈ entries, Writable entry) ∧ HoldAll encoders (entries.map topicBytes) := by
  constructor
  · intro entry hentry
    obtain ⟨encoder, hencoder⟩ := of_mapM_ok h entry hentry
    exact (encodeTopic_eq_ok hencoder).1
  · have hall := (forall₂_of_mapM_ok h).imp fun _ _ hencoder => (encodeTopic_eq_ok hencoder).2
    exact List.forall₂_map_right_iff.mpr hall.flip

/-- What has been written when the user data is. -/
theorem encode_eq_ok (h : encode version assignment userData = .ok bytes) :
    Encodable version assignment ∧ ∃ encoder last : Encoder,
      encoder.Holds (prefixBytes version assignment) ∧
      encoder.writeBytes userData = .ok last ∧ bytes = last.buffer := by
  obtain ⟨first, hversion, hrest⟩ := bind_eq_ok h
  obtain ⟨topics, htopics, hrest⟩ := bind_eq_ok hrest
  obtain ⟨second, harray, hrest⟩ := bind_eq_ok hrest
  obtain ⟨last, huserData, hlast⟩ := bind_eq_ok hrest
  cases hlast
  obtain ⟨hfits, hfirst⟩ := holds_of_writeInt Encoder.holds_new hversion
  obtain ⟨hwritable, hall⟩ := mapM_encodeTopic_eq_ok htopics
  obtain ⟨hlength, hsecond⟩ := holds_or_lost_of_writeObjects hall hfirst harray
  have hcount := hall.length_eq
  rw [List.length_map] at hcount
  rw [hcount] at hlength hsecond
  have hheld := hsecond.resolve_right (not_lost_of_writeBytes huserData)
  rw [List.nil_append, ← List.flatMap_def] at hheld
  exact ⟨⟨hfits, hlength, hwritable⟩, second, last, hheld, huserData, rfl⟩

/-- Below `2 ^ 31` bytes, what is returned is the encoding. -/
theorem encode_eq (h : encode version assignment userData = .ok bytes)
    (hlength : (encoding version assignment userData).length < 2 ^ 31) :
    bytes = encoding version assignment userData := by
  obtain ⟨-, encoder, last, hholds, hlast, rfl⟩ := encode_eq_ok h
  rw [encoding, List.length_append, List.length_append, length_intBytes] at hlength
  exact (holds_of_writeBytes hholds hlength hlast).buffer_eq

/-- Without user data it is in any case. -/
theorem encode_nil_eq (h : encode version assignment [] = .ok bytes) :
    bytes = encoding version assignment [] := by
  obtain ⟨-, encoder, last, hholds, hlast, rfl⟩ := encode_eq_ok h
  have hle := hholds.length_le_two_pow
  refine (holds_of_writeBytes hholds ?_ hlast).buffer_eq
  rw [List.length_nil]
  omega

/-! ## What is read -/

/-- What a topic comes back as. -/
def seenTopic (entry : Text × List Int) : Text × List Int := (entry.1.toWellFormed, entry.2)

/-- The assignment that comes back. -/
def received (assignment : TopicRecord) : TopicRecord :=
  (assignment.ownEntries.map seenTopic).foldl indexAssignment .empty

/-- A writable topic is read back as it is seen. -/
theorem reads_decodeAssignment {entry : Text × List Int} (h : Writable entry) :
    Reads decodeAssignment (topicBytes entry) (seenTopic entry) := by
  have hname := @reads_readString (some entry.1) fun text htext => by
    cases htext
    exact h.name
  have hlength := h.length
  have hpartitions : Reads (Decoder.readArray Decoder.readInt32)
      (intBytes 4 entry.2.length ++ entry.2.flatMap (intBytes 4)) entry.2 := by
    have helements := @reads_readElements _ _ Decoder.readInt32 entry.2 (intBytes 4) id
      fun partition hmem => reads_readInt (h.partitions partition hmem).1
        (h.partitions partition hmem).2
    rw [List.map_id] at helements
    exact (@reads_readInt 4 entry.2.length (by omega) (by omega)).bind helements
  rw [← List.append_nil (topicBytes entry), topicBytes, List.append_assoc]
  exact hname.bind (hpartitions.bind (Reads.pure _))

/-- An encodable assignment is read back with its version and user data. -/
theorem reads_fields (h : Encodable version assignment) (huserData : userData.length < 2 ^ 31) :
    Reads fields (encoding version assignment userData)
      ⟨version, received assignment, some userData⟩ := by
  have hlength := h.length
  have htopics := (@reads_readInt 4 assignment.ownEntries.length (by omega) (by omega)).bind
    (@reads_readElements _ _ decodeAssignment assignment.ownEntries topicBytes seenTopic
      fun entry hmem => reads_decodeAssignment (h.topics entry hmem))
  have hbytes := @reads_readBytes (some userData) fun bytes hmem => by
    cases hmem
    exact huserData
  rw [encoding, prefixBytes, List.append_assoc]
  refine (reads_readInt h.version.1 h.version.2).bind (htopics.bind ?_)
  rw [← List.append_nil (intBytes 4 _ ++ userData)]
  exact hbytes.bind (Reads.pure _)

/-- Decoding an encoded assignment, whatever follows it. -/
theorem decode_encoding (h : Encodable version assignment) (huserData : userData.length < 2 ^ 31)
    (after : Bytes) :
    decode (encoding version assignment userData ++ after) =
      .ok (some ⟨version, received assignment, some userData⟩) := by
  have hread := reads_fields h huserData [] after
  have hcan : (Decoder.new (encoding version assignment userData ++ after)).canReadBytes 2 := by
    refine decide_eq_true ?_
    show (2 : Int) ≤ ((encoding version assignment userData ++ after).length : Int) - 0
    rw [encoding, prefixBytes]
    simp only [List.length_append, length_intBytes]
    omega
  rw [decode, if_neg (not_not_intro hcan)]
  show (fields ⟨_, 0⟩).map _ = _
  rw [List.nil_append] at hread
  rw [show (0 : Int) = ((([] : Bytes).length : Nat) : Int) from rfl, hread]
  rfl

/-- No assignment is decoded from less than two bytes. -/
theorem decode_of_short (h : bytes.length < 2) : decode bytes = .ok none := by
  have hcannot : ¬ (Decoder.new bytes).canReadBytes 2 = true := by
    intro hcan
    have hroom : (2 : Int) ≤ (bytes.length : Int) - 0 := of_decide_eq_true hcan
    omega
  rw [decode, if_pos hcannot]

/-! ## What comes back -/

/-- A name that comes back. -/
def Kept (topic : Text) : Prop := topic.toWellFormed = topic ∧ topic ≠ Text.proto

/-- `Kept` is decidable by two comparisons of names. -/
instance (topic : Text) : Decidable (Kept topic) := inferInstanceAs (Decidable (_ ∧ _))

/-- Only names that come back are stored. -/
theorem kept_of_mem_received {topic : Text} (h : topic ∈ (received assignment).keys) :
    Kept topic := by
  have hfold : ∀ (entries : List (Text × List Int)) (obj : TopicRecord),
      (∀ name ∈ obj.keys, Kept name) →
      ∀ name ∈ ((entries.map seenTopic).foldl indexAssignment obj).keys, Kept name := by
    intro entries
    induction entries with
    | nil => exact fun _ hobj => hobj
    | cons entry entries ih =>
        intro obj hobj
        refine ih _ fun name hname => ?_
        unfold indexAssignment InsertionMap.assignProperty at hname
        split at hname
        · exact hobj name hname
        · next hproto =>
            rcases InsertionMap.mem_keys_set.mp hname with hsame | hold
            · rw [hsame]
              exact ⟨Text.toWellFormed_toWellFormed entry.1, hproto⟩
            · exact hobj name hold
  exact hfold assignment.ownEntries .empty (List.forall_mem_nil _) topic h

/-- An assignment of names that come back comes back. -/
theorem entries_received (h : ∀ topic ∈ assignment.keys, Kept topic) :
    (received assignment).entries = assignment.ownEntries := by
  have hkept : ∀ entry ∈ assignment.ownEntries, Kept entry.1 := fun entry hentry =>
    h entry.1 (List.mem_map_of_mem (assignment.ownEntries_perm.mem_iff.mp hentry))
  have hseen : assignment.ownEntries.map seenTopic = assignment.ownEntries := by
    refine (List.map_congr_left fun entry hentry => ?_).trans (List.map_id _)
    exact Prod.ext (hkept entry hentry).1 rfl
  have hset : ∀ (obj : TopicRecord), assignment.ownEntries.foldl indexAssignment obj =
      assignment.ownEntries.foldl (fun record entry => record.set entry.1 entry.2) obj :=
    fun obj => List.foldl_ext _ _ _ fun record entry hentry => if_neg (hkept entry hentry).2
  rw [received, hseen, hset, InsertionMap.entries_foldl_set assignment.ownEntries_nodup
    fun _ _ => List.not_mem_nil]
  rfl

/-- An assignment comes back exactly if its names do. -/
theorem received_iff :
    (received assignment).ownEntries = assignment.ownEntries ↔
      ∀ topic ∈ assignment.keys, Kept topic := by
  constructor
  · intro hsame topic htopic
    refine @kept_of_mem_received assignment topic ?_
    have hperm := ((received assignment).ownEntries_perm.symm.trans
      (List.Perm.of_eq hsame)).trans assignment.ownEntries_perm
    exact (hperm.map Prod.fst).mem_iff.mpr htopic
  · intro hkept
    exact InsertionMap.ownEntries_eq (entries_received hkept)

end MemberAssignment

end KafkaJs.Consumer.AssignerProtocol
