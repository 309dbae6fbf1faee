import KafkaJs.Protocol.FlexibleGrammar
import KafkaJs.Protocol.ReturnedWrites

/-!
# OffsetFetch requests, version 5

`requests/offsetFetch/v5/request.js` writes a tag buffer behind every partition. The grammar above
it has an array of plain INT32 there, so that what follows the first partition is out of place:
`followsGrammar_iff`.
-/

namespace KafkaJs.Protocol.OffsetFetch

open Data

/-- A topic of the request with its partitions. -/
structure TopicPartitions where
  topic : Text
  partitions : List Int
  deriving DecidableEq

/-! ## The encoder -/

/-- `encodePartition`. -/
def encodePartition (partition : Int) : Except KafkaError Encoder := do
  let encoder ← Encoder.new.writeInt32 partition
  encoder.writeUVarIntBytes none

/-- `encodeTopic`. -/
def encodeTopic (entry : TopicPartitions) : Except KafkaError Encoder := do
  let encoder ← Encoder.new.writeUVarIntString (some entry.topic)
  let partitions ← entry.partitions.mapM encodePartition
  let encoder ← encoder.writeUVarIntArray (some partitions)
  encoder.writeUVarIntBytes none

/-- `topics === null ? null : topics.map(encodeTopic)`, written as an array. -/
def writeTopics (topics : Option (List TopicPartitions)) (encoder : Encoder) :
    Except KafkaError Encoder :=
  match topics with
  | none => encoder.writeUVarIntArray none
  | some topics => do
      let topics ← topics.mapM encodeTopic
      encoder.writeUVarIntArray (some topics)

/-- `encode`. The first tag buffer belongs to the header of the request. -/
def encode (groupId : Text) (topics : Option (List TopicPartitions)) :
    Except KafkaError Encoder := do
  let encoder ← Encoder.new.writeUVarIntBytes none
  let encoder ← encoder.writeUVarIntString (some groupId)
  let encoder ← writeTopics topics encoder
  encoder.writeUVarIntBytes none

/-! ## The grammar -/

/-- `name [partition_indexes] TAG_BUFFER`, with `partition_indexes => INT32`. -/
def topicGrammar : Grammar TopicPartitions := do
  let name ← Grammar.compactString
  match ← Grammar.compactArray Grammar.int32 with
  | none => Grammar.reject
  | some partitions => do
      let _tags ← Grammar.tagBuffer
      pure ⟨name, partitions⟩

/-- `group_id [topics] TAG_BUFFER`; the array of topics may be null. -/
def requestGrammar : Grammar (Text × Option (List TopicPartitions)) := do
  let groupId ← Grammar.compactString
  let topics ← Grammar.compactArray topicGrammar
  let _tags ← Grammar.tagBuffer
  pure (groupId, topics)

/-- Behind the tag byte of the header, the bytes are a request by the grammar, to the last of them,
and it is this one. -/
def FollowsGrammar (bytes : Bytes) (groupId : Text) (topics : Option (List TopicPartitions)) :
    Prop :=
  ∃ body, bytes = 0 :: body ∧ requestGrammar body = some ((groupId, topics), [])

/-! ## The bytes of a request -/

/-- The bytes of a partition. -/
def partitionBytes (partition : Int) : Bytes := intBytes 4 partition ++ [0]

/-- The bytes of an array of partitions after its length. -/
def partitionsBytes (partitions : List Int) : Bytes := (partitions.map partitionBytes).flatten

/-- The bytes of a length plus one. -/
def lengthBytes (length : Nat) : Bytes := uVarIntBytes (BitVec.ofInt 32 (length + 1))

/-- The bytes of a topic. -/
def topicBytes (entry : TopicPartitions) : Bytes :=
  compactBytes (some entry.topic.toUtf8) ++
    (lengthBytes entry.partitions.length ++ partitionsBytes entry.partitions ++ [0])

/-- The bytes of the topics. -/
def topicsBytes : Option (List TopicPartitions) → Bytes
  | none => [0]
  | some topics => lengthBytes topics.length ++ (topics.map topicBytes).flatten

/-- The bytes of a request. -/
def requestBytes (groupId : Text) (topics : Option (List TopicPartitions)) : Bytes :=
  [0] ++ (compactBytes (some groupId.toUtf8) ++ (topicsBytes topics ++ [0]))

section Encoding

/-- The absent tag buffer is written as the byte zero. -/
theorem writes_tagByte : Writes (Encoder.writeUVarIntBytes none) [0] :=
  writes_writeUVarIntBytes none

/-- A partition that fits an int32 is written as its bytes. -/
theorem encodePartition_builds {partition : Int} (h : FitsInt 4 partition) :
    Builds (encodePartition partition) (partitionBytes partition) :=
  ((writes_writeInt h.1 h.2).bind writes_tagByte).builds

/-- A topic is written as its bytes when all of its partitions fit. -/
theorem encodeTopic_builds {entry : TopicPartitions}
    (h : ∀ partition ∈ entry.partitions, FitsInt 4 partition) :
    Builds (encodeTopic entry) (topicBytes entry) := by
  have hpartitions : Writes
      (fun encoder => entry.partitions.mapM encodePartition >>= fun encoders =>
        encoder.writeUVarIntArray (some encoders))
      (lengthBytes entry.partitions.length ++ partitionsBytes entry.partitions) := by
    refine writes_built (uVarIntBytes_ne_nil _)
      (fun partition hmem => encodePartition_builds (h partition hmem)) fun encoders hall => ?_
    have hwrites := Kind.writes_writeUVarIntArray hall
    rwa [List.length_map] at hwrites
  have hassoc : encodeTopic entry = (Encoder.new.writeUVarIntString (some entry.topic) >>=
      fun encoder => (entry.partitions.mapM encodePartition >>= fun encoders =>
        encoder.writeUVarIntArray (some encoders)) >>= Encoder.writeUVarIntBytes none) := by
    simp only [encodeTopic, bind_assoc]
  rw [hassoc]
  exact ((writes_writeUVarIntString (some entry.topic)).bind
    (hpartitions.bind writes_tagByte)).builds

/-- The list of topics, null or not, is written as its bytes. -/
theorem writes_writeTopics {topics : Option (List TopicPartitions)}
    (h : ∀ entries ∈ topics, ∀ entry ∈ entries, ∀ partition ∈ entry.partitions,
      FitsInt 4 partition) : Writes (writeTopics topics) (topicsBytes topics) := by
  cases topics with
  | none => exact writes_writeUVarInt 0
  | some entries =>
      refine writes_built (uVarIntBytes_ne_nil _)
        (fun entry hmem => encodeTopic_builds (h entries rfl entry hmem)) fun encoders hall => ?_
      have hwrites := Kind.writes_writeUVarIntArray hall
      rwa [List.length_map] at hwrites

/-- A request whose partitions are 32-bit integers is encoded. -/
theorem encode_builds (groupId : Text) {topics : Option (List TopicPartitions)}
    (h : ∀ entries ∈ topics, ∀ entry ∈ entries, ∀ partition ∈ entry.partitions,
      FitsInt 4 partition) : Builds (encode groupId topics) (requestBytes groupId topics) :=
  (writes_tagByte.bind ((writes_writeUVarIntString (some groupId)).bind
    ((writes_writeTopics h).bind writes_tagByte))).builds

/-- The partitions of a request that was encoded are 32-bit integers. -/
theorem fits_of_encode {groupId : Text} {topics : Option (List TopicPartitions)}
    {encoder : Encoder} (h : encode groupId topics = .ok encoder) :
    ∀ entries ∈ topics, ∀ entry ∈ entries, ∀ partition ∈ entry.partitions,
      FitsInt 4 partition := by
  intro entries hentries entry hentry partition hpartition
  cases hentries
  obtain ⟨_, -, h⟩ := bind_eq_ok h
  obtain ⟨_, -, h⟩ := bind_eq_ok h
  obtain ⟨_, htopics, -⟩ := bind_eq_ok h
  obtain ⟨_, htopics, -⟩ := bind_eq_ok htopics
  obtain ⟨_, htopic⟩ := of_mapM_ok htopics entry hentry
  obtain ⟨_, -, htopic⟩ := bind_eq_ok htopic
  obtain ⟨_, hpartitions, -⟩ := bind_eq_ok htopic
  obtain ⟨_, hencoded⟩ := of_mapM_ok hpartitions partition hpartition
  obtain ⟨_, hint, -⟩ := bind_eq_ok hencoded
  exact (writeInt_eq_ok hint (by rw [Encoder.new, List.length_replicate]; decide)).1

/-- Below `2 ^ 31` bytes an encoded request is its bytes. -/
theorem buffer_of_encode {groupId : Text} {topics : Option (List TopicPartitions)}
    {encoder : Encoder} (h : encode groupId topics = .ok encoder)
    (hlength : (requestBytes groupId topics).length < 2 ^ 31) :
    encoder.buffer = requestBytes groupId topics :=
  ((encode_builds groupId (fits_of_encode h)).holds hlength h).buffer_eq

end Encoding

/-- A compact byte array is longer than its content. -/
theorem length_lt_compactBytes (bytes : Bytes) :
    bytes.length < (compactBytes (some bytes)).length := by
  have := List.length_pos_iff.mpr (uVarIntBytes_ne_nil (BitVec.ofInt 32 (bytes.length + 1)))
  rw [compactBytes, List.length_append]
  omega

/-- Every partition takes at least a byte. -/
theorem length_le_partitionsBytes (partitions : List Int) :
    partitions.length ≤ (partitionsBytes partitions).length := by
  induction partitions with
  | nil => exact le_rfl
  | cons partition partitions ih =>
      show partitions.length + 1 ≤ (partitionBytes partition ++ partitionsBytes partitions).length
      rw [List.length_append, partitionBytes, List.length_append]
      exact Nat.add_comm 1 _ ▸ Nat.add_le_add (Nat.le_add_left _ _) ih

/-- Every topic takes at least a byte. -/
theorem length_le_topicsBytes (entries : List TopicPartitions) :
    entries.length ≤ ((entries.map topicBytes).flatten).length := by
  induction entries with
  | nil => exact le_rfl
  | cons entry entries ih =>
      have hlt := length_lt_compactBytes entry.topic.toUtf8
      rw [List.map_cons, List.flatten_cons, List.length_append, topicBytes, List.length_append,
        List.length_cons]
      omega

/-! ## Parsing what was written -/

section Parsing

/-- A read of `head` pushes the bytes in front of it behind it, if these are all the same. -/
theorem pushed_behind {α : Type} {head middle tail : List α} {pad : Nat} {byte : α}
    (h : List.replicate pad byte ++ (head ++ tail) = head ++ middle) :
    middle = List.replicate pad byte ++ tail := by
  induction head with
  | nil => exact h.symm
  | cons first head ih =>
      cases pad with
      | zero => exact (@List.append_cancel_left _ (first :: head) _ _ h).symm
      | succ pad =>
          rw [List.replicate_succ, List.cons_append, List.cons_append] at h
          obtain ⟨rfl, h⟩ := List.cons.inj h
          refine ih ?_
          rw [List.replicate_succ', List.append_assoc]
          exact h

/-- Integers that are read as the partitions leave the tag buffers of all of them behind. -/
theorem repeated_int32_pads {partitions : List Int} (hfits : ∀ partition ∈ partitions,
    FitsInt 4 partition) {pad : Nat} {tail rest : Bytes}
    (h : Grammar.repeated Grammar.int32 partitions.length
      (List.replicate pad 0 ++ (partitionsBytes partitions ++ tail)) = some (partitions, rest)) :
    rest = List.replicate (pad + partitions.length) 0 ++ tail := by
  induction partitions generalizing pad with
  | nil => exact (Prod.mk.inj (Option.some.inj h)).2.symm
  | cons partition partitions ih =>
      obtain ⟨first, middle, hfirst, h⟩ := grammar_bind_eq_some.mp h
      obtain ⟨others, last, hothers, hpure⟩ := grammar_bind_eq_some.mp h
      obtain ⟨hpartitions, rfl⟩ := Prod.mk.inj (Option.some.inj hpure)
      obtain ⟨rfl, rfl⟩ := List.cons.inj hpartitions
      -- The tag buffer of this partition joins those that were pushed behind it.
      have hbytes := Grammar.int32_eq_some (hfits first List.mem_cons_self) hfirst
      rw [partitionsBytes, List.map_cons, List.flatten_cons, partitionBytes, List.append_assoc,
        List.append_assoc] at hbytes
      rw [pushed_behind hbytes, ← List.append_assoc, ← List.replicate_succ'] at hothers
      rw [ih (fun other hmem => hfits other (List.mem_cons_of_mem _ hmem)) hothers,
        List.length_cons, Nat.add_assoc, Nat.add_comm 1]

/-- A topic that is parsed as itself leaves a zero behind for every partition. -/
theorem topicGrammar_eq_some {entry : TopicPartitions} {more rest : Bytes}
    (hfits : ∀ partition ∈ entry.partitions, FitsInt 4 partition)
    (hlength : (topicBytes entry).length < 2 ^ 31)
    (h : topicGrammar (topicBytes entry ++ more) = some (entry, rest)) :
    entry.topic.toWellFormed = entry.topic ∧
      rest = List.replicate entry.partitions.length 0 ++ more := by
  rw [topicBytes, List.length_append, List.length_append, List.length_append] at hlength
  have hname := length_lt_compactBytes entry.topic.toUtf8
  have hcount := length_le_partitionsBytes entry.partitions
  rw [topicBytes, List.append_assoc, topicGrammar,
    (Grammar.parses_compactString (by omega)).bind_eq] at h
  obtain ⟨array, middle, harray, h⟩ := grammar_bind_eq_some.mp h
  rw [List.append_assoc, List.append_assoc] at harray
  obtain ⟨partitions, rfl, hread⟩ := Grammar.compactArray_eq_some (by omega) harray
  obtain ⟨_, last, htags, hpure⟩ := grammar_bind_eq_some.mp h
  obtain ⟨hentry, rfl⟩ := Prod.mk.inj (Option.some.inj hpure)
  have hpartitions : partitions = entry.partitions := congrArg TopicPartitions.partitions hentry
  have hrest := @repeated_int32_pads _ hfits 0 _ _ (hpartitions ▸ hread)
  refine ⟨congrArg TopicPartitions.topic hentry, ?_⟩
  rw [hrest, Nat.zero_add, ← List.append_assoc, ← List.replicate_succ', List.replicate_succ]
    at htags
  have hzero := Grammar.parses_tagBuffer (List.replicate entry.partitions.length 0 ++ more)
  exact (Prod.mk.inj (Option.some.inj (htags.symm.trans hzero))).2

/-- Topics that are parsed as themselves leave the zeros of the last of them behind, and there are
none if no topic has a partition. -/
theorem repeated_topics {entries : List TopicPartitions} {tail rest : Bytes}
    (hfits : ∀ entry ∈ entries, ∀ partition ∈ entry.partitions, FitsInt 4 partition)
    (hlength : ((entries.map topicBytes).flatten).length < 2 ^ 31)
    (h : Grammar.repeated topicGrammar entries.length ((entries.map topicBytes).flatten ++ tail) =
      some (entries, rest)) :
    (∀ entry ∈ entries, entry.topic.toWellFormed = entry.topic) ∧
      ∃ pad, rest = List.replicate pad 0 ++ tail ∧
        (pad = 0 → ∀ entry ∈ entries, entry.partitions = []) := by
  induction entries with
  | nil =>
      obtain ⟨-, rfl⟩ := Prod.mk.inj (Option.some.inj h)
      exact ⟨by simp, 0, rfl, by simp⟩
  | cons entry entries ih =>
      obtain ⟨first, middle, hfirst, h⟩ := grammar_bind_eq_some.mp h
      obtain ⟨others, last, hothers, hpure⟩ := grammar_bind_eq_some.mp h
      obtain ⟨hentries, rfl⟩ := Prod.mk.inj (Option.some.inj hpure)
      obtain ⟨rfl, rfl⟩ := List.cons.inj hentries
      rw [List.map_cons, List.flatten_cons, List.length_append] at hlength
      rw [List.map_cons, List.flatten_cons, List.append_assoc] at hfirst
      obtain ⟨hname, rfl⟩ := topicGrammar_eq_some (hfits first List.mem_cons_self) (by omega) hfirst
      cases hpartitions : first.partitions with
      | nil =>
          rw [hpartitions] at hothers
          obtain ⟨hnames, pad, hrest, hnone⟩ :=
            ih (fun other hmem => hfits other (List.mem_cons_of_mem _ hmem)) (by omega) hothers
          exact ⟨List.forall_mem_cons.mpr ⟨hname, hnames⟩, pad, hrest, fun hpad =>
            List.forall_mem_cons.mpr ⟨hpartitions, hnone hpad⟩⟩
      | cons partition partitions =>
          rw [hpartitions] at hothers
          cases others with
          | nil =>
              obtain ⟨-, rfl⟩ := Prod.mk.inj (Option.some.inj hothers)
              exact ⟨by simpa using hname, _, rfl, fun hpad => absurd hpad (Nat.succ_ne_zero _)⟩
          | cons other others =>
              -- The name of the next topic is read from a zero.
              obtain ⟨_, _, hother, -⟩ := grammar_bind_eq_some.mp hothers
              obtain ⟨_, _, hnull, -⟩ := grammar_bind_eq_some.mp hother
              rw [List.length_cons, List.replicate_succ, List.cons_append,
                Grammar.compactString_zero] at hnull
              cases hnull

/-- A topic without partitions is parsed as itself. -/
theorem parses_topicGrammar {entry : TopicPartitions} (hpartitions : entry.partitions = [])
    (hname : entry.topic.toWellFormed = entry.topic)
    (hlength : (topicBytes entry).length < 2 ^ 31) :
    Parses topicGrammar (topicBytes entry) entry := by
  obtain ⟨topic, partitions⟩ := entry
  subst hpartitions
  rw [topicBytes, List.length_append] at hlength
  dsimp only at hlength hname
  have hlt := length_lt_compactBytes topic.toUtf8
  have hparses := @Grammar.parses_compactString topic (by omega)
  rw [hname] at hparses
  have harray := @Grammar.parses_compactArray _ Grammar.int32 (intBytes 4) [] (by decide) (by simp)
  exact hparses.bind (harray.bind (Grammar.parses_tagBuffer.map fun _ => _))

end Parsing

/-! ## Which requests follow the grammar -/

/-- The names have no lone surrogates, and no topic has a partition. -/
structure WithoutPartitions (groupId : Text) (topics : Option (List TopicPartitions)) : Prop where
  groupId : groupId.toWellFormed = groupId
  topics : ∀ entries ∈ topics, ∀ entry ∈ entries,
    entry.topic.toWellFormed = entry.topic ∧ entry.partitions = []

section Following

variable {groupId : Text} {topics : Option (List TopicPartitions)}

/-- The bytes of the topics without partitions are parsed as these topics. -/
theorem parses_topics (htopics : ∀ entries ∈ topics, ∀ entry ∈ entries,
      entry.topic.toWellFormed = entry.topic ∧ entry.partitions = [])
    (hlength : (topicsBytes topics).length < 2 ^ 31) :
    Parses (Grammar.compactArray topicGrammar) (topicsBytes topics) topics := by
  cases topics with
  | none => exact fun _ => rfl
  | some entries =>
      rw [topicsBytes, List.length_append] at hlength
      have hcount := length_le_topicsBytes entries
      refine Grammar.parses_compactArray (by omega) fun entry hmem => ?_
      obtain ⟨hname, hpartitions⟩ := htopics entries rfl entry hmem
      have hle := @length_le_flatMap_of_mem _ _ topicBytes _ hmem
      exact parses_topicGrammar hpartitions hname (by rw [List.flatMap_def] at hle; omega)

/-- A request without partitions follows the grammar. -/
theorem follows_of_withoutPartitions (h : WithoutPartitions groupId topics)
    (hlength : (requestBytes groupId topics).length < 2 ^ 31) :
    FollowsGrammar (requestBytes groupId topics) groupId topics := by
  refine ⟨_, rfl, ?_⟩
  rw [requestBytes, List.length_append, List.length_append, List.length_append] at hlength
  have hlt := length_lt_compactBytes groupId.toUtf8
  have hgroup := @Grammar.parses_compactString groupId (by omega)
  rw [h.groupId] at hgroup
  have hparses : Parses requestGrammar
      (compactBytes (some groupId.toUtf8) ++ (topicsBytes topics ++ [0])) (groupId, topics) :=
    hgroup.bind ((parses_topics h.topics (by omega)).bind
      (Grammar.parses_tagBuffer.map fun _ => _))
  have hall := hparses []
  rwa [List.append_nil] at hall

/-- A request that follows the grammar has no partitions. -/
theorem withoutPartitions_of_follows
    (hfits : ∀ entries ∈ topics, ∀ entry ∈ entries, ∀ partition ∈ entry.partitions,
      FitsInt 4 partition)
    (hlength : (requestBytes groupId topics).length < 2 ^ 31)
    (h : FollowsGrammar (requestBytes groupId topics) groupId topics) :
    WithoutPartitions groupId topics := by
  obtain ⟨body, hbody, h⟩ := h
  rw [requestBytes, List.length_append, List.length_append, List.length_append] at hlength
  have hlt := length_lt_compactBytes groupId.toUtf8
  have hbytes : compactBytes (some groupId.toUtf8) ++ (topicsBytes topics ++ [0]) = body :=
    (List.cons.inj hbody).2
  rw [← hbytes, requestGrammar, (Grammar.parses_compactString (by omega)).bind_eq] at h
  obtain ⟨array, middle, harray, h⟩ := grammar_bind_eq_some.mp h
  obtain ⟨_, last, htags, hpure⟩ := grammar_bind_eq_some.mp h
  obtain ⟨hpair, rfl⟩ := Prod.mk.inj (Option.some.inj hpure)
  obtain ⟨hgroup, rfl⟩ := Prod.mk.inj hpair
  refine ⟨hgroup, fun entries hentries => ?_⟩
  cases hentries
  rw [topicsBytes, List.length_append] at hlength
  have hcount := length_le_topicsBytes entries
  rw [topicsBytes, List.append_assoc] at harray
  obtain ⟨values, hvalues, hread⟩ := Grammar.compactArray_eq_some (by omega) harray
  cases hvalues
  obtain ⟨hnames, pad, rfl, hnone⟩ := repeated_topics (hfits entries rfl) (by omega) hread
  -- What is left behind the last tag buffer is as long as the zeros in front of it.
  have hzero := Grammar.parses_tagBuffer (List.replicate pad 0)
  rw [← List.replicate_succ', List.replicate_succ] at htags
  have hleft := (Prod.mk.inj (Option.some.inj (htags.symm.trans hzero))).2
  have hpad : pad = 0 := by simpa using hleft.symm
  exact fun entry hmem => ⟨hnames entry hmem, hnone hpad entry hmem⟩

/-- A request that was encoded follows the grammar exactly if it has no partitions. -/
theorem followsGrammar_iff {encoder : Encoder} (h : encode groupId topics = .ok encoder)
    (hlength : (requestBytes groupId topics).length < 2 ^ 31) :
    FollowsGrammar encoder.buffer groupId topics ↔ WithoutPartitions groupId topics := by
  rw [buffer_of_encode h hlength]
  constructor
  · exact withoutPartitions_of_follows (fits_of_encode h) hlength
  · exact fun hwithout => follows_of_withoutPartitions hwithout hlength

end Following

/-- A request for a topic without partitions follows the grammar. -/
theorem followsGrammar_emptyTopic : ∃ encoder,
    encode (Text.ofString "g") (some [⟨Text.ofString "t", []⟩]) = .ok encoder ∧
      FollowsGrammar encoder.buffer (Text.ofString "g") (some [⟨Text.ofString "t", []⟩]) := by
  obtain ⟨encoder, hencode, -⟩ := (@encode_builds (Text.ofString "g")
    (some [⟨Text.ofString "t", []⟩]) (by simp)).ok (by decide)
  exact ⟨encoder, hencode, (followsGrammar_iff hencode (by decide)).mpr ⟨by decide, by decide⟩⟩

/-- A request for one partition does not. -/
theorem not_followsGrammar_onePartition : ∃ encoder,
    encode (Text.ofString "g") (some [⟨Text.ofString "t", [1]⟩]) = .ok encoder ∧
      ¬ FollowsGrammar encoder.buffer (Text.ofString "g") (some [⟨Text.ofString "t", [1]⟩]) := by
  have hfits : ∀ entries ∈ some [(⟨Text.ofString "t", [1]⟩ : TopicPartitions)],
      ∀ entry ∈ entries, ∀ partition ∈ entry.partitions, FitsInt 4 partition := by decide
  obtain ⟨encoder, hencode, -⟩ :=
    (@encode_builds (Text.ofString "g") _ hfits).ok (by decide)
  refine ⟨encoder, hencode, fun hfollows => ?_⟩
  rw [buffer_of_encode hencode (by decide)] at hfollows
  have hwithout := withoutPartitions_of_follows hfits (by decide) hfollows
  exact absurd (hwithout.topics _ rfl _ List.mem_cons_self).2 (by decide)

end KafkaJs.Protocol.OffsetFetch
