import KafkaJs.Consumer.AssignerProtocol
import KafkaJs.Protocol.TaggedFields

/-!
# The exchange of assignments

The leader of a group puts an encoded assignment for each member into a SyncGroup request of version
4; the coordinator relays them in the responses. `parse` reads a request by its stated grammar, and
`relay` is the response to a member.

The bytes field of a response is read together with the first byte of the tag buffer behind it,
which `MemberAssignment.decode` does not look at; an empty field is read as a single byte, which is
too short for an assignment. `exchanged_iff` says which groups the exchange serves.
-/

namespace KafkaJs.Consumer.SyncGroup

open Data Protocol AssignerProtocol

/-! ## The request -/

/-- The assignment of one member. -/
structure GroupAssignment where
  memberId : Text
  memberAssignment : Bytes
  deriving DecidableEq

/-- The arguments of the request. -/
structure Request where
  groupId : Text
  generationId : Int
  memberId : Text
  groupInstanceId : Option Text := none
  groupAssignment : List GroupAssignment
  deriving DecidableEq

/-- `encodeGroupAssignment`. -/
def encodeGroupAssignment (assignment : GroupAssignment) : Except KafkaError Encoder := do
  let encoder ← Encoder.new.writeUVarIntString (some assignment.memberId)
  let encoder ← encoder.writeUVarIntBytes (some (.buffer assignment.memberAssignment))
  encoder.writeUVarIntBytes none

/-- `writeUVarIntArray` of the group assignment. -/
def writeGroupAssignment (groupAssignment : List GroupAssignment) (encoder : Encoder) :
    Except KafkaError Encoder := do
  let encoders ← groupAssignment.mapM encodeGroupAssignment
  encoder.writeUVarIntArray (some encoders)

/-- `encode`. The tag buffer in front belongs to the header of the request. -/
def Request.encode (request : Request) : Except KafkaError Encoder := do
  let encoder ← Encoder.new.writeUVarIntBytes none
  let encoder ← encoder.writeUVarIntString (some request.groupId)
  let encoder ← encoder.writeInt32 request.generationId
  let encoder ← encoder.writeUVarIntString (some request.memberId)
  let encoder ← encoder.writeUVarIntString request.groupInstanceId
  let encoder ← writeGroupAssignment request.groupAssignment encoder
  encoder.writeUVarIntBytes none

/-! ## The response -/

/-- A decoded response. -/
structure Response where
  throttleTime : Int := 0
  clientSideThrottleTime : Int
  errorCode : Int
  memberAssignment : Option Bytes
  deriving DecidableEq

/-- `failIfVersionNotSupported`. -/
def failIfVersionNotSupported (code : Int) : Reader Unit :=
  if code = 35 then throw (createErrorFromCode 35) else pure ()

/-- The fields of a response. -/
def Response.fields : Reader Response := do
  let _ ← Decoder.readTaggedFields
  let throttleTime ← Decoder.readInt32
  let errorCode ← Decoder.readInt16
  failIfVersionNotSupported errorCode
  let memberAssignment ← Decoder.readUVarIntBytes
  let _ ← Decoder.readTaggedFields
  pure { clientSideThrottleTime := throttleTime, errorCode, memberAssignment }

/-- `decode`. -/
def Response.decode (rawData : Bytes) : Except KafkaError Response :=
  (Response.fields (Decoder.new rawData)).map Prod.fst

/-! ## The grammar of the request -/

/-- The next bytes, all of which must be there. -/
def exactly (size : Nat) : Reader Bytes := fun decoder =>
  if decoder.buffer.length < decoder.offset + size then .error outOfRange
  else Decoder.take size decoder

/-- `COMPACT_NULLABLE_BYTES`. -/
def compactNullableBytes : Reader (Option Bytes) := do
  let length ← Decoder.readUVarInt
  if length = 0 then pure none else some <$> exactly (length - 1)

/-- `COMPACT_BYTES`. -/
def compactBytesField : Reader Bytes := do
  match ← compactNullableBytes with
  | some bytes => pure bytes
  | none => throw outOfRange

/-- `COMPACT_STRING`. -/
def compactString : Reader Text := Text.ofUtf8 <$> compactBytesField

/-- `COMPACT_NULLABLE_STRING`. -/
def compactNullableString : Reader (Option Text) := Option.map Text.ofUtf8 <$> compactNullableBytes

/-- `TAG_BUFFER`: a number of fields, each with its tag and its size. -/
def tagBuffer : Reader Unit := do
  let count ← Decoder.readUVarInt
  let field : Reader Bytes := do
    let _ ← Decoder.readUVarInt
    let size ← Decoder.readUVarInt
    exactly size
  let _ ← Decoder.readMany field count
  pure ()

/-- `group_assignment`. -/
def groupAssignmentField : Reader GroupAssignment := do
  let memberId ← compactString
  let memberAssignment ← compactBytesField
  tagBuffer
  pure { memberId, memberAssignment }

/-- The array of group assignments. -/
def groupAssignmentArray : Reader (List GroupAssignment) := do
  let length ← Decoder.readUVarInt
  if length = 0 then throw outOfRange else Decoder.readMany groupAssignmentField (length - 1)

/-- The header's tag buffer and the request. -/
def Request.fields : Reader Request := do
  tagBuffer
  let groupId ← compactString
  let generationId ← Decoder.readInt32
  let memberId ← compactString
  let groupInstanceId ← compactNullableString
  let groupAssignment ← groupAssignmentArray
  tagBuffer
  pure { groupId, generationId, memberId, groupInstanceId, groupAssignment }

/-- A request that is all of a buffer. -/
def parse (buffer : Bytes) : Except KafkaError Request := do
  let (request, decoder) ← Request.fields (Decoder.new buffer)
  if decoder.offset = buffer.length then pure request else throw outOfRange

/-! ## The coordinator -/

/-- The assignment that a request has for a member; empty if it has none. -/
def Request.assignmentOf (request : Request) (memberId : Text) : Bytes :=
  ((request.groupAssignment.find? fun assignment => assignment.memberId = memberId).map
    GroupAssignment.memberAssignment).getD []

/-- The response that relays an assignment, with empty tag buffers. -/
def relay (throttleTime : Int) (memberAssignment : Bytes) : Bytes :=
  compactBytes none ++ (intBytes 4 throttleTime ++ (intBytes 2 0 ++
    (compactBytes (some memberAssignment) ++ compactBytes none)))

/-- What a member makes of a response. -/
def receive (rawData : Bytes) : Except KafkaError (Option MemberAssignment) := do
  let response ← Response.decode rawData
  match response.memberAssignment with
  | some memberAssignment => MemberAssignment.decode memberAssignment
  | none => throw { name := .typeError, message := "buffer is null", retriable := none }

/-! ## What is written -/

/-- The bytes of one group assignment. -/
def GroupAssignment.bytes (assignment : GroupAssignment) : Bytes :=
  compactBytes (some assignment.memberId.toUtf8) ++
    (compactBytes (some assignment.memberAssignment) ++ compactBytes none)

/-- The bytes of a request. -/
def Request.bytes (request : Request) : Bytes :=
  compactBytes none ++ (compactBytes (some request.groupId.toUtf8) ++
    (intBytes 4 request.generationId ++ (compactBytes (some request.memberId.toUtf8) ++
      (compactBytes (request.groupInstanceId.map Text.toUtf8) ++
        ((uVarIntBytes (BitVec.ofInt 32 (request.groupAssignment.length + 1)) ++
          request.groupAssignment.flatMap GroupAssignment.bytes) ++ compactBytes none)))))

/-- An entry of the group assignment is encoded as its bytes. -/
theorem builds_encodeGroupAssignment (assignment : GroupAssignment) :
    Builds (encodeGroupAssignment assignment) assignment.bytes := by
  have hwrites := (writes_writeUVarIntString (some assignment.memberId)).bind
    ((writes_writeUVarIntBytes (some (.buffer assignment.memberAssignment))).bind
      (writes_writeUVarIntBytes none))
  exact hwrites.builds

/-- The group assignment is written behind its count. -/
theorem writes_writeGroupAssignment (groupAssignment : List GroupAssignment) :
    Writes (writeGroupAssignment groupAssignment)
      (uVarIntBytes (BitVec.ofInt 32 (groupAssignment.length + 1)) ++
        groupAssignment.flatMap GroupAssignment.bytes) := by
  rw [List.flatMap_def]
  refine writes_built (uVarIntBytes_ne_nil _)
    (fun assignment _ => builds_encodeGroupAssignment assignment) fun encoders hall => ?_
  have hwrites := Kind.writes_writeUVarIntArray hall
  rwa [List.length_map] at hwrites

variable {request : Request} {encoder : Encoder}

/-- A request that is encoded has a generation that a field of 32 bits can hold. -/
theorem fitsInt_of_encode (h : request.encode = .ok encoder) : FitsInt 4 request.generationId := by
  obtain ⟨first, hfirst, hrest⟩ := bind_eq_ok h
  obtain ⟨second, hsecond, hrest⟩ := bind_eq_ok hrest
  obtain ⟨third, hthird, -⟩ := bind_eq_ok hrest
  obtain ⟨middle, -, hput⟩ := bind_eq_ok hthird
  obtain ⟨buf, hbuf, -⟩ := bind_eq_ok hput
  exact (putInt_eq_ok hbuf).1

/-- An encoded request is its bytes. -/
theorem buffer_of_encode (h : request.encode = .ok encoder)
    (hsize : request.bytes.length < 2 ^ 31) : encoder.buffer = request.bytes := by
  have hfits := fitsInt_of_encode h
  have hwrites := (writes_writeUVarIntBytes none).bind
    ((writes_writeUVarIntString (some request.groupId)).bind
      ((writes_writeInt hfits.1 hfits.2).bind
        ((writes_writeUVarIntString (some request.memberId)).bind
          ((writes_writeUVarIntString request.groupInstanceId).bind
            ((writes_writeGroupAssignment request.groupAssignment).bind
              (writes_writeUVarIntBytes none))))))
  exact (hwrites.builds.holds hsize h).buffer_eq

/-! ## What is parsed -/

/-- A given number of bytes is read back. -/
theorem reads_exactly (bytes : Bytes) : Reads (exactly bytes.length) bytes bytes := by
  intro before after
  have hroom : ¬ ((before ++ (bytes ++ after)).length : Int) < before.length + bytes.length := by
    rw [List.length_append, List.length_append]
    omega
  rw [exactly, if_neg hroom]
  exact reads_take bytes before after

/-- Nullable bytes in the compact form are read back. -/
theorem reads_compactNullableBytes {value : Option Bytes}
    (h : ∀ bytes ∈ value, bytes.length + 1 < 2 ^ 32) :
    Reads compactNullableBytes (compactBytes value) value := by
  cases value with
  | none =>
      rw [compactBytes, ← List.append_nil (uVarIntBytes 0#32)]
      refine reads_readUVarInt_zero.bind ?_
      rw [if_pos rfl]
      exact Reads.pure none
  | some bytes =>
      refine (reads_compactLength (h bytes rfl)).bind ?_
      rw [if_neg (Nat.succ_ne_zero _), Nat.add_sub_cancel]
      exact (reads_exactly bytes).map

/-- Bytes in the compact form are read back. -/
theorem reads_compactBytesField {bytes : Bytes} (h : bytes.length + 1 < 2 ^ 32) :
    Reads compactBytesField (compactBytes (some bytes)) bytes := by
  rw [← List.append_nil (compactBytes _)]
  refine (reads_compactNullableBytes fun other hother => ?_).bind (Reads.pure bytes)
  cases hother
  exact h

/-- A string in the compact form is read back with its lone surrogates replaced. -/
theorem reads_compactString {text : Text} (h : text.toUtf8.length + 1 < 2 ^ 32) :
    Reads compactString (compactBytes (some text.toUtf8)) text.toWellFormed := by
  rw [← Text.ofUtf8_toUtf8]
  exact (reads_compactBytesField h).map

/-- A nullable string in the compact form is read back. -/
theorem reads_compactNullableString {value : Option Text}
    (h : ∀ text ∈ value, text.toUtf8.length + 1 < 2 ^ 32) :
    Reads compactNullableString (compactBytes (value.map Text.toUtf8))
      (value.map Text.toWellFormed) := by
  have hvalue : value.map Text.toWellFormed = (value.map Text.toUtf8).map Text.ofUtf8 := by
    rw [Option.map_map]
    exact Option.map_congr fun text _ => (Text.ofUtf8_toUtf8 text).symm
  rw [hvalue]
  refine Reads.map (reads_compactNullableBytes fun bytes hbytes => ?_)
  obtain ⟨text, htext, rfl⟩ := Option.map_eq_some_iff.mp hbytes
  exact h text htext

/-- An empty tag buffer is read. -/
theorem reads_tagBuffer : Reads tagBuffer (compactBytes none) () := by
  rw [compactBytes, ← List.append_nil (uVarIntBytes 0#32)]
  refine reads_readUVarInt_zero.bind ?_
  exact (Reads.pure []).bind (Reads.pure ())

/-- What a group assignment is parsed as. -/
def GroupAssignment.seen (assignment : GroupAssignment) : GroupAssignment :=
  { assignment with memberId := assignment.memberId.toWellFormed }

/-- An entry of the group assignment is read back. -/
theorem reads_groupAssignmentField {assignment : GroupAssignment}
    (h : assignment.bytes.length < 2 ^ 31) :
    Reads groupAssignmentField assignment.bytes assignment.seen := by
  simp only [GroupAssignment.bytes, compactBytes, List.length_append] at h
  rw [GroupAssignment.bytes, ← List.append_nil (compactBytes none)]
  exact (reads_compactString (by omega)).bind ((reads_compactBytesField (by omega)).bind
    (reads_tagBuffer.bind (Reads.pure _)))

/-- The group assignment is read back. -/
theorem reads_groupAssignmentArray {groupAssignment : List GroupAssignment}
    (h : (groupAssignment.flatMap GroupAssignment.bytes).length < 2 ^ 31) :
    Reads groupAssignmentArray
      (uVarIntBytes (BitVec.ofInt 32 (groupAssignment.length + 1)) ++
        groupAssignment.flatMap GroupAssignment.bytes)
      (groupAssignment.map GroupAssignment.seen) := by
  have hcount := @length_le_flatMap _ groupAssignment GroupAssignment.bytes fun assignment _ => by
    have hpos := List.length_pos_iff.mpr (uVarIntBytes_ne_nil 0#32)
    rw [GroupAssignment.bytes, List.length_append, List.length_append, compactBytes]
    omega
  refine (reads_compactLength (by omega)).bind ?_
  rw [if_neg (Nat.succ_ne_zero _), Nat.add_sub_cancel]
  refine reads_readMany fun assignment hmem => reads_groupAssignmentField ?_
  have hle := @length_le_flatMap_of_mem _ _ GroupAssignment.bytes _ hmem
  omega

/-- What a request is parsed as. -/
def Request.seen (request : Request) : Request :=
  { groupId := request.groupId.toWellFormed
    generationId := request.generationId
    memberId := request.memberId.toWellFormed
    groupInstanceId := request.groupInstanceId.map Text.toWellFormed
    groupAssignment := request.groupAssignment.map GroupAssignment.seen }

/-- The coordinator reads the request as it was written. -/
theorem reads_request (hfits : FitsInt 4 request.generationId)
    (hsize : request.bytes.length < 2 ^ 31) : Reads Request.fields request.bytes request.seen := by
  simp only [Request.bytes, List.length_append] at hsize
  have hgroupId := @reads_compactString request.groupId (by
    simp only [compactBytes, List.length_append] at hsize
    omega)
  have hmemberId := @reads_compactString request.memberId (by
    simp only [compactBytes, List.length_append] at hsize
    omega)
  have hgroupInstanceId := @reads_compactNullableString request.groupInstanceId fun text htext => by
    rw [Option.mem_def.mp htext] at hsize
    simp only [compactBytes, Option.map_some, List.length_append] at hsize
    omega
  have hgroupAssignment := @reads_groupAssignmentArray request.groupAssignment (by omega)
  rw [Request.bytes, ← List.append_nil (_ ++ compactBytes none)]
  simp only [List.append_assoc]
  refine reads_tagBuffer.bind (hgroupId.bind ((reads_readInt hfits.1 hfits.2).bind
    (hmemberId.bind (hgroupInstanceId.bind ?_))))
  rw [← List.append_assoc (uVarIntBytes _)]
  exact hgroupAssignment.bind (reads_tagBuffer.bind (Reads.pure _))

/-- A request parses by its grammar, and the grammar takes all of it. -/
theorem parse_encode (h : request.encode = .ok encoder) (hsize : request.bytes.length < 2 ^ 31) :
    parse encoder.buffer = .ok request.seen := by
  have hread := reads_request (fitsInt_of_encode h) hsize [] []
  rw [List.nil_append, List.append_nil, List.length_nil, Nat.cast_zero, Int.zero_add] at hread
  rw [buffer_of_encode h hsize, parse, Decoder.new, hread, ok_bind]
  exact if_pos rfl

/-! ## What is received -/

/-- The response to a member, behind any header that is passed over, is decoded with one byte more
than was relayed. -/
theorem readsAt_fields {header : Bytes}
    (hheader : Reads ((fun _ => ()) <$> Decoder.readTaggedFields) header ())
    {throttleTime : Int} {bytes : Bytes} (hthrottle : FitsInt 4 throttleTime)
    (hbytes : bytes.length + 1 < 2 ^ 32) :
    ReadsAt Response.fields
      (header ++ (intBytes 4 throttleTime ++ (intBytes 2 0 ++
        (compactBytes (some bytes) ++ compactBytes none)))) []
      { clientSideThrottleTime := throttleTime
        errorCode := 0
        memberAssignment := some (bytes ++ [0]) } := by
  have hnext : (compactBytes none ++ []).take 1 = [0] := by decide
  have hfield := @readsAt_readUVarIntBytes (some bytes)
    (fun other hother => by cases hother; exact hbytes) (compactBytes none ++ [])
  rw [withNext, Option.map_some, hnext] at hfield
  have hsupported : failIfVersionNotSupported 0 = pure () := if_neg (by decide)
  refine ReadsAt.bind_ignored hheader ?_
  refine ReadsAt.bind ((reads_readInt hthrottle.1 hthrottle.2).readsAt _) ?_
  refine ReadsAt.bind ((@reads_readInt 2 0 (by decide) (by decide)).readsAt _) ?_
  rw [hsupported, pure_bind]
  refine hfield.bind ?_
  rw [← List.append_nil (compactBytes none)]
  refine ReadsAt.bind (reads_readTaggedFields.readsAt _) ?_
  exact (Reads.pure _).readsAt []

/-- A response decoded from the beginning of a buffer. -/
theorem decode_of_readsAt {rawData : Bytes} {response : Response}
    (h : ReadsAt Response.fields rawData [] response) : Response.decode rawData = .ok response := by
  have hstart := h []
  rw [List.nil_append, List.append_nil, List.length_nil, Nat.cast_zero] at hstart
  rw [Response.decode, Decoder.new, hstart]
  rfl

/-- A member decodes a response to what was relayed and one byte more. -/
theorem decode_relay {throttleTime : Int} {bytes : Bytes} (hthrottle : FitsInt 4 throttleTime)
    (hbytes : bytes.length + 1 < 2 ^ 32) :
    Response.decode (relay throttleTime bytes) =
      .ok { clientSideThrottleTime := throttleTime
            errorCode := 0
            memberAssignment := some (bytes ++ [0]) } :=
  decode_of_readsAt (readsAt_fields reads_readTaggedFields.map hthrottle hbytes)

/-- Tagged fields in the header that are skipped make no difference. -/
theorem decode_tagged {buffer : TagBuffer} (hskipped : buffer.Skipped) {throttleTime : Int}
    {bytes : Bytes} (hthrottle : FitsInt 4 throttleTime) (hbytes : bytes.length + 1 < 2 ^ 32) :
    Response.decode (buffer.bytes ++ (intBytes 4 throttleTime ++ (intBytes 2 0 ++
      (compactBytes (some bytes) ++ compactBytes none)))) =
      Response.decode (relay throttleTime bytes) := by
  have hheader : Reads ((fun _ => ()) <$> Decoder.readTaggedFields) buffer.bytes () := by
    rw [map_eq_pure_bind, ← List.append_nil buffer.bytes]
    exact hskipped.reads (Reads.pure ())
  rw [decode_of_readsAt (readsAt_fields hheader hthrottle hbytes), decode_relay hthrottle hbytes]

/-- A member decodes what was relayed and one byte more. -/
theorem receive_relay {throttleTime : Int} {bytes : Bytes} (hthrottle : FitsInt 4 throttleTime)
    (hbytes : bytes.length + 1 < 2 ^ 32) :
    receive (relay throttleTime bytes) = MemberAssignment.decode (bytes ++ [0]) := by
  rw [receive, decode_relay hthrottle hbytes]
  rfl

/-! ## The exchange -/

/-- A member and what it is assigned. -/
structure Member where
  memberId : Text
  version : Int
  assignment : TopicRecord
  userData : Bytes

namespace Member

/-- The entry of the leader for a member. -/
def groupAssignment (member : Member) : Except KafkaError GroupAssignment := do
  let memberAssignment ←
    MemberAssignment.encode member.version member.assignment member.userData
  pure { memberId := member.memberId, memberAssignment }

/-- The bytes that the member should get. -/
def encoding (member : Member) : Bytes :=
  MemberAssignment.encoding member.version member.assignment member.userData

/-- The entry with these bytes. -/
def sent (member : Member) : GroupAssignment := ⟨member.memberId, member.encoding⟩

/-- The member gets its own version, assignment and user data. -/
def Gets (member : Member) (result : Except KafkaError (Option MemberAssignment)) : Prop :=
  ∃ decoded, result = .ok (some decoded) ∧ decoded.version = member.version ∧
    decoded.assignment.ownEntries = member.assignment.ownEntries ∧
    decoded.userData = some member.userData

/-- The id and the topics of a member come back as they are. -/
def Preserved (member : Member) : Prop :=
  member.memberId.toWellFormed = member.memberId ∧
    ∀ topic ∈ member.assignment.keys, MemberAssignment.Kept topic

end Member

/-- The request holds the entries, and each member gets its own assignment, or none. -/
def Exchanged (members : List Member) (request : Request) (throttleTime : Int) (buffer : Bytes) :
    Prop :=
  ∃ parsed, parse buffer = .ok parsed ∧ parsed.groupAssignment = request.groupAssignment ∧
    (∀ member ∈ members,
      member.Gets (receive (relay throttleTime (parsed.assignmentOf member.memberId)))) ∧
    ∀ memberId, memberId ∉ members.map Member.memberId →
      receive (relay throttleTime (parsed.assignmentOf memberId)) = .ok none

section Exchange

variable {members : List Member}

/-- The assignment of a member is part of what is sent. -/
theorem length_encoding_le {member : Member} (h : member ∈ members) :
    member.encoding.length ≤ ((members.map Member.sent).flatMap GroupAssignment.bytes).length := by
  have hmem : member.sent ∈ members.map Member.sent := List.mem_map_of_mem h
  have hle := @length_le_flatMap_of_mem _ _ GroupAssignment.bytes _ hmem
  refine le_trans ?_ hle
  simp only [GroupAssignment.bytes, Member.sent, compactBytes, List.length_append]
  omega

/-- The entries of the leader, where they are small enough to be sent. -/
theorem groupAssignment_eq
    (hsize : ((members.map Member.sent).flatMap GroupAssignment.bytes).length < 2 ^ 31)
    {groupAssignment : List GroupAssignment}
    (h : members.mapM Member.groupAssignment = .ok groupAssignment) :
    groupAssignment = members.map Member.sent ∧
      ∀ member ∈ members, MemberAssignment.Encodable member.version member.assignment := by
  constructor
  · refine eq_map_of_mapM_ok h fun member hmem entry hentry => ?_
    obtain ⟨bytes, hbytes, hresult⟩ := bind_eq_ok hentry
    cases hresult
    have hle := length_encoding_le hmem
    rw [MemberAssignment.encode_eq hbytes (lt_of_le_of_lt hle hsize)]
    rfl
  · intro member hmem
    obtain ⟨entry, hentry⟩ := of_mapM_ok h member hmem
    obtain ⟨bytes, hbytes, -⟩ := bind_eq_ok hentry
    exact (MemberAssignment.encode_eq_ok hbytes).1

/-- The entry that the coordinator finds for a member. -/
theorem find?_sent (hnodup : (members.map Member.memberId).Nodup) {member : Member}
    (hmem : member ∈ members) :
    (members.map Member.sent).find? (fun assignment => assignment.memberId = member.memberId) =
      some member.sent := by
  induction members with
  | nil => cases hmem
  | cons first members ih =>
      obtain ⟨hnotin, hrest⟩ := List.nodup_cons.mp hnodup
      rw [List.map_cons]
      rcases List.mem_cons.mp hmem with rfl | hlater
      · exact List.find?_cons_of_pos (decide_eq_true rfl)
      · have hne : first.sent.memberId ≠ member.memberId := fun heq =>
          hnotin (List.mem_map.mpr ⟨member, hlater, heq.symm⟩)
        rw [List.find?_cons_of_neg (by simpa using hne)]
        exact ih hrest hlater

/-- The coordinator finds no entry for another id. -/
theorem find?_sent_none {memberId : Text} (h : memberId ∉ members.map Member.memberId) :
    (members.map Member.sent).find? (fun assignment => assignment.memberId = memberId) = none := by
  rw [List.find?_eq_none]
  intro assignment hassignment
  obtain ⟨member, hmember, rfl⟩ := List.mem_map.mp hassignment
  rw [decide_eq_true_eq]
  exact fun heq => h (List.mem_map.mpr ⟨member, hmember, heq⟩)

/-- The leader has encoded the assignments of a group, in a request that can be framed. -/
structure Sends (members : List Member) (request : Request) (encoder : Encoder)
    (throttleTime : Int) : Prop where
  memberIds : (members.map Member.memberId).Nodup
  groupAssignment : members.mapM Member.groupAssignment = .ok request.groupAssignment
  encoded : request.encode = .ok encoder
  size : ({ request with groupAssignment := members.map Member.sent } : Request).bytes.length <
    2 ^ 31
  throttleTime : FitsInt 4 throttleTime

variable {request : Request} {encoder : Encoder} {throttleTime : Int}

/-- The assignments of a request that is sent are short enough. -/
theorem Sends.length_lt (h : Sends members request encoder throttleTime) :
    ((members.map Member.sent).flatMap GroupAssignment.bytes).length < 2 ^ 31 := by
  have hsize := h.size
  simp only [Request.bytes, List.length_append] at hsize
  omega

/-- A request carries the assignments of the members. -/
theorem Sends.sent (h : Sends members request encoder throttleTime) :
    request.groupAssignment = members.map Member.sent :=
  (groupAssignment_eq h.length_lt h.groupAssignment).1

/-- The coordinator parses a request that is sent. -/
theorem Sends.parse (h : Sends members request encoder throttleTime) :
    parse encoder.buffer = .ok request.seen := by
  have hsize := h.size
  rw [← h.sent] at hsize
  exact parse_encode h.encoded hsize

/-- The entries come back as they are if the ids of the members do. -/
theorem Sends.seen_iff (h : Sends members request encoder throttleTime) :
    request.seen.groupAssignment = request.groupAssignment ↔
      ∀ member ∈ members, member.memberId.toWellFormed = member.memberId := by
  rw [Request.seen, h.sent, List.map_map, List.map_inj_left]
  refine forall₂_congr fun member _ => ?_
  show (⟨_, _⟩ : GroupAssignment) = ⟨_, _⟩ ↔ _
  rw [GroupAssignment.mk.injEq]
  exact and_iff_left rfl

/-- What a member receives, where the ids come back as they are. -/
theorem Sends.receive (h : Sends members request encoder throttleTime) {member : Member}
    (hmem : member ∈ members) (hsame : request.seen.groupAssignment = request.groupAssignment) :
    receive (relay throttleTime (request.seen.assignmentOf member.memberId)) =
      .ok (some ⟨member.version, MemberAssignment.received member.assignment,
        some member.userData⟩) := by
  have hlength := lt_of_le_of_lt (length_encoding_le hmem) h.length_lt
  have huserData : member.userData.length < 2 ^ 31 := by
    refine lt_of_le_of_lt ?_ hlength
    simp only [Member.encoding, MemberAssignment.encoding, List.length_append]
    omega
  have hencodable := (groupAssignment_eq h.length_lt h.groupAssignment).2 member hmem
  rw [Request.assignmentOf, hsame, h.sent, find?_sent h.memberIds hmem]
  show SyncGroup.receive (relay throttleTime member.encoding) = _
  rw [receive_relay h.throttleTime (by omega)]
  exact MemberAssignment.decode_encoding hencodable huserData [0]

/-- What is exchanged is preserved for each member. -/
theorem Sends.preserved (h : Sends members request encoder throttleTime)
    (hexchanged : Exchanged members request throttleTime encoder.buffer) :
    ∀ member ∈ members, member.Preserved := by
  obtain ⟨parsed, hparsed, hassignments, hmembers, -⟩ := hexchanged
  intro member hmem
  cases h.parse.symm.trans hparsed
  refine ⟨h.seen_iff.mp hassignments member hmem, MemberAssignment.received_iff.mp ?_⟩
  obtain ⟨decoded, hdecoded, -, hsame, -⟩ := hmembers member hmem
  cases (h.receive hmem hassignments).symm.trans hdecoded
  exact hsame

/-- What is preserved for each member is exchanged. -/
theorem Sends.exchanged (h : Sends members request encoder throttleTime)
    (hpreserved : ∀ member ∈ members, member.Preserved) :
    Exchanged members request throttleTime encoder.buffer := by
  have hsame := h.seen_iff.mpr fun member hmem => (hpreserved member hmem).1
  refine ⟨request.seen, h.parse, hsame, fun member hmem => ?_, fun memberId hother => ?_⟩
  · exact ⟨_, h.receive hmem hsame, rfl,
      MemberAssignment.received_iff.mpr (hpreserved member hmem).2, rfl⟩
  · -- the byte behind an empty field is too short for an assignment
    rw [Request.assignmentOf, hsame, h.sent, find?_sent_none hother]
    show SyncGroup.receive (relay throttleTime []) = _
    rw [receive_relay h.throttleTime (by decide)]
    exact MemberAssignment.decode_of_short (by decide)

/-- Over every group that the leader can encode, the members get what they were assigned exactly if
their ids and topics come back as they are. -/
theorem exchanged_iff (h : Sends members request encoder throttleTime) :
    Exchanged members request throttleTime encoder.buffer ↔
      ∀ member ∈ members, member.Preserved :=
  ⟨h.preserved, h.exchanged⟩

end Exchange

/-! ## A group with one topic -/

/-- A member with a partition of one topic. -/
def sampleMember (topic : String) : Member :=
  { memberId := Text.ofString "m"
    version := 0
    assignment := InsertionMap.empty.set (Text.ofString topic) [0]
    userData := [7] }

/-- The request of the leader. -/
def sampleRequest (topic : String) : Request :=
  { groupId := Text.ofString "g"
    generationId := 1
    memberId := Text.ofString "m"
    groupAssignment := [(sampleMember topic).sent] }

/-- A request for one member is sent. -/
theorem sends_sample {topic : String}
    (hassign : ([sampleMember topic].mapM Member.groupAssignment).toOption =
      some [(sampleMember topic).sent])
    (hencode : (sampleRequest topic).encode.toOption.isSome)
    (hsize : (sampleRequest topic).bytes.length < 2 ^ 31) :
    ∃ encoder, Sends [sampleMember topic] (sampleRequest topic) encoder 0 := by
  obtain ⟨encoder, hencoder⟩ := ok_of_isSome hencode
  refine ⟨encoder, List.nodup_singleton _, ?_, hencoder, hsize, by decide⟩
  cases hmap : [sampleMember topic].mapM Member.groupAssignment with
  | error error =>
      rw [hmap] at hassign
      cases hassign
  | ok groupAssignment =>
      rw [hmap] at hassign
      cases hassign
      rfl

/-- The assignment of a plain topic reaches its member. -/
theorem exchanged_iff_sample : ∃ encoder,
    Sends [sampleMember "a"] (sampleRequest "a") encoder 0 ∧
    (Exchanged [sampleMember "a"] (sampleRequest "a") 0 encoder.buffer ↔
      ∀ member ∈ [sampleMember "a"], member.Preserved) := by
  obtain ⟨encoder, hsends⟩ := @sends_sample "a" (by decide +kernel) (by decide +kernel)
    (by decide +kernel)
  exact ⟨encoder, hsends, exchanged_iff hsends⟩

/-- A topic named `__proto__`: the member gets an assignment without it. -/
theorem not_exchanged_proto : ∃ encoder,
    Sends [sampleMember "__proto__"] (sampleRequest "__proto__") encoder 0 ∧
    ¬ Exchanged [sampleMember "__proto__"] (sampleRequest "__proto__") 0 encoder.buffer := by
  obtain ⟨encoder, hsends⟩ := @sends_sample "__proto__" (by decide +kernel) (by decide +kernel)
    (by decide +kernel)
  refine ⟨encoder, hsends, fun hexchanged => ?_⟩
  have hpreserved := hsends.preserved hexchanged _ (List.mem_singleton_self _)
  have hkept := hpreserved.2 Text.proto (by decide +kernel)
  exact hkept.2 rfl

end KafkaJs.Consumer.SyncGroup
