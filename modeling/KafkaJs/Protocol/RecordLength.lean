import KafkaJs.Protocol.RecordBatchEncoding
import KafkaJs.Protocol.ReturnedWrites
import KafkaJs.Protocol.VarIntForms

/-!
# The length of a record

The length in front of a record is computed by the `sizeOf` functions and the bytes behind it are
written by the `write` functions. The former measure a typed array or another view of a buffer by
its `byteLength`, and the latter write the text that `String` makes of it.

`Extends` follows the offset and the buffer of an encoder through writes of any size, so that
`lengthExact_iff` covers every record on which the encoder returns.
-/

namespace KafkaJs.Protocol

open Data

/-! ## Values of any kind -/

/-- What `Buffer.byteLength` accepts, and null. A view is a typed array, a `DataView` or an
`ArrayBuffer` that is no `Buffer`: `printed` is the text that `String` makes of it. -/
inductive RecordValue where
  | null
  | buffer (bytes : Bytes)
  | string (text : Text)
  | view (byteLength : Nat) (printed : Text)
  deriving DecidableEq

namespace RecordValue

/-- `Buffer.byteLength`, which throws on null. -/
def byteLength : RecordValue → Except KafkaError Nat
  | null => byteLengthOrThrow none
  | buffer bytes => .ok bytes.length
  | string text => .ok text.toUtf8.length
  | view byteLength _ => .ok byteLength

/-- `sizeOfVarIntBytes`. -/
def sizeOfVarIntBytes : RecordValue → Nat
  | null => sizeOfVarInt (-1)
  | buffer bytes => sizeOfVarInt bytes.length + bytes.length
  | string text => sizeOfVarInt text.toUtf8.length + text.toUtf8.length
  | view byteLength _ => sizeOfVarInt byteLength + byteLength

/-- What `writeVarIntBytes` writes: a `Buffer` as it is, and `String` of everything else. -/
def payload : RecordValue → Option Payload
  | null => none
  | buffer bytes => some (.buffer bytes)
  | string text => some (.string text)
  | view _ printed => some (.string printed)

/-- A `Uint8Array`, which prints as its elements with commas between them. -/
def uint8Array (elements : Bytes) : RecordValue :=
  .view elements.length (Text.ofScalars
    (List.intercalate [','] (elements.map fun element => Nat.toDigits 10 element.toNat)))

end RecordValue

/-- The value of a header: one value or an array of values. -/
inductive RecordHeaderValue where
  | single (value : RecordValue)
  | list (values : List RecordValue)
  deriving DecidableEq

/-- The arguments of the record encoder. -/
structure RecordArguments where
  offsetDelta : Int := 0
  timestampDelta : Int := 0
  key : RecordValue
  value : RecordValue
  headers : InsertionMap Text RecordHeaderValue := .empty
  deriving DecidableEq

/-- One header of the arguments. -/
structure RecordHeader where
  key : Text
  value : RecordValue
  deriving DecidableEq

namespace RecordArguments

/-- The headers that one entry stands for. -/
def headersOf (entry : Text × RecordHeaderValue) : List RecordHeader :=
  match entry.2 with
  | .single value => [⟨entry.1, value⟩]
  | .list values => values.map fun value => ⟨entry.1, value⟩

/-- `headersArray`. -/
def headersArray (args : RecordArguments) : List RecordHeader :=
  args.headers.entries.flatMap headersOf

/-- The loop of `sizeOfHeaders`. -/
def sizeOfHeadersLoop : List RecordHeader → Nat → Except KafkaError Nat
  | [], size => pure size
  | header :: headers, size => do
      let keySize := header.key.toUtf8.length
      let valueSize ← header.value.byteLength
      let size := size + sizeOfVarInt keySize + keySize
      if header.value = .null then sizeOfHeadersLoop headers (size + sizeOfVarInt (-1))
      else sizeOfHeadersLoop headers (size + sizeOfVarInt valueSize + valueSize)

/-- `sizeOfHeaders`. -/
def sizeOfHeaders (headersArray : List RecordHeader) : Except KafkaError Nat :=
  sizeOfHeadersLoop headersArray (sizeOfVarInt headersArray.length)

/-- `sizeOfBody`. -/
def sizeOfBody (args : RecordArguments) : Except KafkaError Nat := do
  let headersSize ← sizeOfHeaders args.headersArray
  pure (1 + sizeOfVarLong args.timestampDelta + sizeOfVarInt args.offsetDelta +
    args.key.sizeOfVarIntBytes + args.value.sizeOfVarIntBytes + headersSize)

/-- The encoder of one header. -/
def encodeHeader (header : RecordHeader) : Except KafkaError Encoder :=
  Header.encode ⟨header.key, header.value.payload⟩

/-- The writes behind the length. -/
def writeBody (args : RecordArguments) (encoder : Encoder) : Except KafkaError Encoder := do
  let encoder ← encoder.writeInt8 0
  let encoder ← encoder.writeVarLong args.timestampDelta
  let encoder ← encoder.writeVarInt args.offsetDelta
  let encoder ← encoder.writeVarIntBytes args.key.payload
  let encoder ← encoder.writeVarIntBytes args.value.payload
  let headers ← args.headersArray.mapM encodeHeader
  encoder.writeVarIntArray headers

/-- The encoder of one record. -/
def encode (args : RecordArguments) : Except KafkaError Encoder := do
  let sizeOfBody ← args.sizeOfBody
  let encoder ← Encoder.new.writeVarInt sizeOfBody
  args.writeBody encoder

/-- The length that stands in front of the record is the number of bytes written after it. -/
def LengthExact (args : RecordArguments) (encoder : Encoder) : Prop :=
  ∃ size start, args.sizeOfBody = .ok size ∧ Encoder.new.writeVarInt size = .ok start ∧
    (readVarIntFrom start.buffer).1 = (encoder.size : Int) - start.size

end RecordArguments

/-! ## Offset and buffer of an encoder -/

/-- The offset of an encoder and the length of its buffer. -/
def Encoder.extent (encoder : Encoder) : Nat × Nat := (encoder.offset, encoder.buf.length)

/-- What writing a number of bytes makes of an extent, if it does not throw. -/
def grow (extent : Nat × Nat) (length : Nat) : Nat × Nat :=
  (extent.1 + length,
    if extent.2 < extent.1 + length then (nextPowerOfTwo (extent.1 + length)).toNat else extent.2)

/-- The operation, where it returns, has written pieces of these lengths. -/
def Extends (op : Encoder → Except KafkaError Encoder) (lengths : List Nat) : Prop :=
  ∀ encoder next, op encoder = .ok next → next.extent = lengths.foldl grow encoder.extent

/-- The extent grows by the lengths that are added. -/
theorem foldl_grow_fst (lengths : List Nat) (extent : Nat × Nat) :
    (lengths.foldl grow extent).1 = extent.1 + lengths.sum := by
  induction lengths generalizing extent with
  | nil => rfl
  | cons length lengths ih =>
      rw [List.foldl_cons, ih, List.sum_cons, ← Nat.add_assoc]
      rfl

/-- Making room and then storing without another change of the buffer. -/
theorem Extends.of_room {store : Encoder → Except KafkaError Encoder} {length : Nat}
    (hstore : ∀ encoder next, store encoder = .ok next →
      next.extent = (encoder.offset + length, encoder.buf.length)) :
    Extends (fun encoder => encoder.ensureAvailable length >>= store) [length] := by
  intro encoder next h
  obtain ⟨roomy, hroomy, hnext⟩ := bind_eq_ok h
  rw [hstore _ _ hnext]
  show _ = grow encoder.extent length
  unfold Encoder.ensureAvailable at hroomy
  split at hroomy
  · next hfull =>
      obtain ⟨newBuffer, halloc, hcopied⟩ := bind_eq_ok hroomy
      unfold alloc at halloc
      split at halloc
      · cases halloc
      · cases halloc
        cases hcopied
        rw [length_copyInto, List.length_replicate]
        exact Prod.ext rfl (if_pos hfull).symm
  · next hroom =>
      cases hroomy
      exact Prod.ext rfl (if_neg hroom).symm

/-- A command that writes nothing. -/
theorem Extends.pure : Extends Pure.pure [] := by
  intro encoder next h
  cases h
  rfl

/-- Two writes, one after the other. -/
theorem Extends.bind {first second : Encoder → Except KafkaError Encoder} {head tail : List Nat}
    (hfirst : Extends first head) (hsecond : Extends second tail) :
    Extends (fun encoder => first encoder >>= second) (head ++ tail) := by
  intro encoder next h
  obtain ⟨middle, hmiddle, hnext⟩ := bind_eq_ok h
  rw [List.foldl_append, ← hfirst _ _ hmiddle, hsecond _ _ hnext]

/-- A buffer extends the encoder by its length. -/
theorem extends_writeBufferInternal (buffer : Bytes) :
    Extends (Encoder.writeBufferInternal buffer) [buffer.length] := by
  refine Extends.of_room fun encoder next h => ?_
  cases h
  simp only [Encoder.extent, length_copyInto]

/-- A varint extends the encoder by its length. -/
theorem extends_writeVarInt (value : Int) :
    Extends (Encoder.writeVarInt value) [(varIntBytes value).length] :=
  extends_writeBufferInternal _

/-- A varlong extends the encoder by its length. -/
theorem extends_writeVarLong (value : Int) :
    Extends (Encoder.writeVarLong value) [(varLongBytes value).length] :=
  extends_writeBufferInternal _

/-- An integer extends the encoder by its width. -/
theorem extends_writeInt (width : Nat) (value : Int) :
    Extends (Encoder.writeInt width value) [width] := by
  refine Extends.of_room fun encoder next h => ?_
  obtain ⟨buf, hput, hnext⟩ := bind_eq_ok h
  cases hnext
  unfold putInt at hput
  split at hput
  · cases hput
  · split at hput
    · cases hput
    · cases hput
      simp only [Encoder.extent, length_copyInto]

/-- A text extends the encoder by its length in UTF-8. -/
theorem extends_writeText (text : Text) :
    Extends (Encoder.writeText text) [text.toUtf8.length] := by
  refine Extends.of_room fun encoder next h => ?_
  obtain ⟨buf, hput, hnext⟩ := bind_eq_ok h
  cases hnext
  unfold putText at hput
  split at hput
  · cases hput
  · cases hput
    simp only [Encoder.extent, length_copyInto]

/-- A string extends the encoder by its length and the varint in front of it. -/
theorem extends_writeVarIntString (text : Text) :
    Extends (Encoder.writeVarIntString text)
      [(varIntBytes text.toUtf8.length).length, text.toUtf8.length] :=
  (extends_writeVarInt _).bind (extends_writeText text)

/-- The lengths of the pieces of a value with its length in front. -/
def pieces (value : Option Payload) : List Nat :=
  match value with
  | none => [(varIntBytes (-1)).length]
  | some value => [(varIntBytes value.bytes.length).length, value.bytes.length]

/-- Nullable bytes extend the encoder by their pieces. -/
theorem extends_writeVarIntBytes (value : Option Payload) :
    Extends (Encoder.writeVarIntBytes value) (pieces value) := by
  cases value with
  | none => exact extends_writeVarInt (-1)
  | some value =>
      cases value with
      | buffer bytes => exact (extends_writeVarInt _).bind (extends_writeBufferInternal bytes)
      | string text => exact (extends_writeVarInt _).bind (extends_writeText text)

/-- The pieces of nullable bytes make up their encoding. -/
theorem sum_pieces (value : Option Payload) :
    (pieces value).sum = (lengthPrefixed (value.map Payload.bytes)).length := by
  cases value with
  | none => simp [pieces, lengthPrefixed]
  | some value => simp [pieces, lengthPrefixed]

/-- An array of encoders extends the encoder by each of them. -/
theorem extends_writeEncoderArray (encoders : List Encoder) :
    Extends (Encoder.writeEncoderArray encoders)
      (encoders.map fun encoder => encoder.buffer.length) := by
  induction encoders with
  | nil => exact Extends.pure
  | cons encoder encoders ih => exact (extends_writeBufferInternal _).bind ih

/-- An array behind a varint extends the encoder by both. -/
theorem extends_writeVarIntArray (encoders : List Encoder) :
    Extends (Encoder.writeVarIntArray encoders) ((varIntBytes encoders.length).length ::
      encoders.map fun encoder => encoder.buffer.length) :=
  (extends_writeVarInt _).bind (extends_writeEncoderArray encoders)

/-! ## The bytes of a record, counted and written -/

/-- The bytes of a value behind its length. -/
def RecordValue.bytes (value : RecordValue) : Bytes :=
  lengthPrefixed (value.payload.map Payload.bytes)

namespace RecordHeader

/-- The bytes of a header. -/
def bytes (header : RecordHeader) : Bytes :=
  lengthPrefixed (some header.key.toUtf8) ++ header.value.bytes

/-- The bytes that `sizeOfHeaders` counts for a header. -/
def counted (header : RecordHeader) : Nat :=
  (lengthPrefixed (some header.key.toUtf8)).length + header.value.sizeOfVarIntBytes

/-- The bytes that the encoder of a header holds of it. Its buffer starts with 512 bytes and falls
behind the offset where the next power of two overflows. -/
def held (header : RecordHeader) : Nat :=
  let extent := ((varIntBytes header.key.toUtf8.length).length :: header.key.toUtf8.length ::
    pieces header.value.payload).foldl grow (0, 512)
  min extent.1 extent.2

end RecordHeader

namespace RecordArguments

variable {args : RecordArguments}

/-- The bytes that the `sizeOf` functions count for key, value and headers. -/
def counted (args : RecordArguments) : Nat :=
  args.key.sizeOfVarIntBytes + args.value.sizeOfVarIntBytes +
    (args.headersArray.map RecordHeader.counted).sum

/-- The bytes that key, value and headers take. -/
def taken (args : RecordArguments) : Nat :=
  args.key.bytes.length + args.value.bytes.length +
    (args.headersArray.map RecordHeader.held).sum

/-- The bytes of the attributes, the deltas and the number of headers. -/
def fixed (args : RecordArguments) : Nat :=
  1 + (varLongBytes args.timestampDelta).length + (varIntBytes args.offsetDelta).length +
    (varIntBytes args.headersArray.length).length

/-- The loop over the headers adds up what each one counts for. -/
theorem sizeOfHeadersLoop_eq_ok {headers : List RecordHeader} {size total : Nat}
    (h : sizeOfHeadersLoop headers size = .ok total) :
    total = size + (headers.map RecordHeader.counted).sum := by
  induction headers generalizing size with
  | nil =>
      cases h
      rfl
  | cons header headers ih =>
      obtain ⟨valueSize, hvalue, hrest⟩ := bind_eq_ok h
      have hkey : (lengthPrefixed (some header.key.toUtf8)).length =
          sizeOfVarInt header.key.toUtf8.length + header.key.toUtf8.length := by
        rw [lengthPrefixed, List.length_append, sizeOfVarInt_eq]
      rw [List.map_cons, List.sum_cons, RecordHeader.counted, hkey]
      cases hkind : header.value with
      | null =>
          rw [hkind] at hvalue
          cases hvalue
      | buffer bytes | string text | view byteLength printed =>
          rw [hkind] at hvalue hrest
          cases hvalue
          rw [ih hrest, RecordValue.sizeOfVarIntBytes]
          omega

/-- The size computed ahead. -/
theorem sizeOfBody_eq_ok {size : Nat} (h : args.sizeOfBody = .ok size) :
    size = args.fixed + args.counted := by
  obtain ⟨headersSize, hheaders, hsize⟩ := bind_eq_ok h
  cases hsize
  have htotal := sizeOfHeadersLoop_eq_ok hheaders
  rw [fixed, counted, htotal, sizeOfVarInt_eq, sizeOfVarLong_eq, sizeOfVarInt_eq]
  omega

/-- An encoded header is as long as what is held of it. -/
theorem length_buffer_of_encodeHeader {header : RecordHeader} {encoder : Encoder}
    (h : encodeHeader header = .ok encoder) : encoder.buffer.length = header.held := by
  have hextends := (extends_writeVarIntString header.key).bind
    (extends_writeVarIntBytes header.value.payload)
  have hextent := hextends _ _ h
  have hnew : Encoder.new.extent = (0, 512) := by
    simp only [Encoder.extent, Encoder.new, List.length_replicate]
  rw [hnew] at hextent
  rw [Encoder.buffer, List.length_take]
  show min encoder.extent.1 encoder.extent.2 = header.held
  simp only [hextent, RecordHeader.held, List.cons_append, List.nil_append]

/-- The encoded headers are as long as what is held of them. -/
theorem length_buffers_of_mapM {headers : List RecordHeader} {encoders : List Encoder}
    (h : headers.mapM encodeHeader = .ok encoders) :
    encoders.map (fun encoder => encoder.buffer.length) = headers.map RecordHeader.held := by
  induction headers generalizing encoders with
  | nil =>
      cases h
      rfl
  | cons header headers ih =>
      rw [List.mapM_cons] at h
      obtain ⟨encoder, hencoder, hrest⟩ := bind_eq_ok h
      obtain ⟨others, hothers, hall⟩ := bind_eq_ok hrest
      cases hall
      rw [List.map_cons, List.map_cons, ih hothers, length_buffer_of_encodeHeader hencoder]

/-- The writes behind the length move the offset by what the parts take. -/
theorem size_of_writeBody {start encoder : Encoder} (h : args.writeBody start = .ok encoder) :
    encoder.size = start.size + (args.fixed + args.taken) := by
  obtain ⟨first, hfirst, h⟩ := bind_eq_ok h
  obtain ⟨second, hsecond, h⟩ := bind_eq_ok h
  obtain ⟨third, hthird, h⟩ := bind_eq_ok h
  obtain ⟨fourth, hfourth, h⟩ := bind_eq_ok h
  obtain ⟨fifth, hfifth, h⟩ := bind_eq_ok h
  obtain ⟨headers, hheaders, h⟩ := bind_eq_ok h
  have hlength := congrArg List.length (length_buffers_of_mapM hheaders)
  rw [List.length_map, List.length_map] at hlength
  have hoffset : ∀ {op : Encoder → Except KafkaError Encoder} {lengths : List Nat}
      {before after : Encoder}, Extends op lengths → op before = .ok after →
        after.size = before.size + lengths.sum := by
    intro op lengths before after hop hafter
    show after.extent.1 = before.extent.1 + _
    rw [hop _ _ hafter, foldl_grow_fst]
  rw [hoffset (extends_writeVarIntArray headers) h, hoffset (extends_writeVarIntBytes _) hfifth,
    hoffset (extends_writeVarIntBytes _) hfourth, hoffset (extends_writeVarInt _) hthird,
    hoffset (extends_writeVarLong _) hsecond, hoffset (extends_writeInt 1 0) hfirst]
  simp only [List.sum_cons, List.sum_nil, sum_pieces, length_buffers_of_mapM hheaders, hlength,
    fixed, taken, RecordValue.bytes]
  omega

/-! ## Exact lengths -/

/-- A varint holds the low 32 bits. -/
theorem varIntBytes_bmod (value : Int) : varIntBytes (value.bmod (2 ^ 32)) = varIntBytes value := by
  have hword : BitVec.ofInt 32 (value.bmod (2 ^ 32)) = BitVec.ofInt 32 value := by
    rw [← BitVec.toInt_ofInt, BitVec.ofInt_toInt]
  rw [varIntBytes, varIntBytes, encodeZigZag, encodeZigZag, hword]

/-- A varint that was written is read back modulo `2 ^ 32`. -/
theorem readVarIntFrom_writeVarInt {value : Int} {start : Encoder}
    (h : Encoder.new.writeVarInt value = .ok start) :
    (readVarIntFrom start.buffer).1 = value.bmod (2 ^ 32) := by
  have hshort := length_varIntBytes_le value
  have hholds := (writes_writeVarInt value).builds.holds (by omega) h
  have hlower := Int.le_bmod (x := value) (m := 2 ^ 32) (by decide)
  have hupper := Int.bmod_lt (x := value) (m := 2 ^ 32) (by decide)
  have hread := readVarIntFrom_varIntBytes [] (by omega : -2 ^ 31 ≤ value.bmod (2 ^ 32)) (by omega)
  rw [List.append_nil, varIntBytes_bmod] at hread
  rw [hholds.buffer_eq, hread]

/-- Where the encoder returns, the length is exact if and only if the low 32 bits of the size agree
with what was written. -/
theorem lengthExact_iff_bmod {encoder : Encoder} (h : args.encode = .ok encoder) :
    args.LengthExact encoder ↔
      ((args.fixed + args.counted : Nat) : Int).bmod (2 ^ 32) =
        (args.fixed + args.taken : Nat) := by
  obtain ⟨size, hsize, h⟩ := bind_eq_ok h
  obtain ⟨start, hstart, hbody⟩ := bind_eq_ok h
  have hread := readVarIntFrom_writeVarInt hstart
  have hwritten := size_of_writeBody hbody
  have hcounted := sizeOfBody_eq_ok hsize
  subst hcounted
  constructor
  · rintro ⟨other, begin, hother, hbegin, hexact⟩
    cases hsize.symm.trans hother
    cases hstart.symm.trans hbegin
    rw [hread] at hexact
    omega
  · intro hexact
    exact ⟨_, start, hsize, hstart, by rw [hread]; omega⟩

/-- The length in front of a record is exact if and only if fewer than `2 ^ 31` bytes follow it and
the bytes counted for key, value and headers are as many as these take, up to multiples of
`2 ^ 32`. -/
theorem lengthExact_iff {encoder : Encoder} (h : args.encode = .ok encoder) :
    args.LengthExact encoder ↔
      args.fixed + args.taken < 2 ^ 31 ∧ args.counted % 2 ^ 32 = args.taken % 2 ^ 32 := by
  rw [lengthExact_iff_bmod h, Int.bmod_def]
  split <;> omega

/-! ## Records that are encoded -/

/-- The bytes of a record after its length. -/
def body (args : RecordArguments) : Bytes :=
  intBytes 1 0 ++ (varLongBytes args.timestampDelta ++ (varIntBytes args.offsetDelta ++
    (args.key.bytes ++ (args.value.bytes ++ (varIntBytes args.headersArray.length ++
      (args.headersArray.map RecordHeader.bytes).flatten)))))

/-- A header is encoded as its key and its value. -/
theorem encodeHeader_builds (header : RecordHeader) : Builds (encodeHeader header) header.bytes :=
  Header.encode_builds ⟨header.key, header.value.payload⟩

/-- The body of a record is written. -/
theorem writes_writeBody (args : RecordArguments) : Writes args.writeBody args.body := by
  have hheaders : Writes (fun encoder => args.headersArray.mapM encodeHeader >>= fun headers =>
      encoder.writeVarIntArray headers) (varIntBytes args.headersArray.length ++
        (args.headersArray.map RecordHeader.bytes).flatten) := by
    refine writes_built (varIntBytes_ne_nil _) (fun header _ => encodeHeader_builds header)
      fun encoders hall => ?_
    have hwrites := writes_writeVarIntArray hall
    rwa [List.length_map] at hwrites
  exact (@writes_writeInt 1 0 (by decide) (by decide)).bind
    ((writes_writeVarLong args.timestampDelta).bind
      ((writes_writeVarInt args.offsetDelta).bind
        ((writes_writeVarIntBytes args.key.payload).bind
          ((writes_writeVarIntBytes args.value.payload).bind hheaders))))

/-- The loop over the headers returns if no value is null. -/
theorem sizeOfHeadersLoop_ok {headers : List RecordHeader}
    (h : ∀ header ∈ headers, header.value ≠ .null) (size : Nat) :
    ∃ total, sizeOfHeadersLoop headers size = .ok total := by
  induction headers generalizing size with
  | nil => exact ⟨size, rfl⟩
  | cons header headers ih =>
      have hrest := ih fun other hmem => h other (List.mem_cons_of_mem _ hmem)
      have hvalue := h header List.mem_cons_self
      rw [sizeOfHeadersLoop]
      cases hkind : header.value with
      | null => exact absurd hkind hvalue
      | buffer bytes | string text | view byteLength printed => exact hrest _

/-- A record without null header values is encoded behind the size computed ahead. -/
theorem encode_builds (h : ∀ header ∈ args.headersArray, header.value ≠ .null) :
    Builds args.encode (varIntBytes (args.fixed + args.counted : Nat) ++ args.body) := by
  obtain ⟨headersSize, hheaders⟩ := sizeOfHeadersLoop_ok h (sizeOfVarInt args.headersArray.length)
  obtain ⟨size, hsize⟩ : ∃ size, args.sizeOfBody = .ok size :=
    ⟨_, by rw [sizeOfBody, sizeOfHeaders, hheaders]; rfl⟩
  rw [encode, hsize, ok_bind, sizeOfBody_eq_ok hsize]
  exact ((writes_writeVarInt _).bind args.writes_writeBody).builds

/-- All bytes of a header are held if they are short enough. -/
theorem held_of_encodeHeader {header : RecordHeader} {encoder : Encoder}
    (h : encodeHeader header = .ok encoder) (hshort : header.bytes.length < 2 ^ 31) :
    header.held = header.bytes.length := by
  rw [← length_buffer_of_encodeHeader h,
    ((encodeHeader_builds header).holds hshort h).buffer_eq]

/-- Headers of fewer than `2 ^ 31` bytes are held whole by their encoders. -/
theorem taken_of_encode {encoder : Encoder} (h : args.encode = .ok encoder)
    (hshort : ∀ header ∈ args.headersArray, header.bytes.length < 2 ^ 31) :
    args.fixed + args.taken = args.body.length := by
  obtain ⟨size, -, h⟩ := bind_eq_ok h
  obtain ⟨start, -, h⟩ := bind_eq_ok h
  obtain ⟨first, -, h⟩ := bind_eq_ok h
  obtain ⟨second, -, h⟩ := bind_eq_ok h
  obtain ⟨third, -, h⟩ := bind_eq_ok h
  obtain ⟨fourth, -, h⟩ := bind_eq_ok h
  obtain ⟨fifth, -, h⟩ := bind_eq_ok h
  obtain ⟨headers, hheaders, -⟩ := bind_eq_ok h
  have hheld : ∀ {list : List RecordHeader} {encoders : List Encoder},
      list.mapM encodeHeader = .ok encoders → (∀ header ∈ list, header.bytes.length < 2 ^ 31) →
        (list.map RecordHeader.held).sum = ((list.map RecordHeader.bytes).flatten).length := by
    intro list
    induction list with
    | nil => intros; rfl
    | cons header list ih =>
        intro encoders hmap hall
        rw [List.mapM_cons] at hmap
        obtain ⟨encoder, hencoder, hrest⟩ := bind_eq_ok hmap
        obtain ⟨others, hothers, -⟩ := bind_eq_ok hrest
        rw [List.map_cons, List.sum_cons, List.map_cons, List.flatten_cons, List.length_append,
          held_of_encodeHeader hencoder (hall header List.mem_cons_self),
          ih hothers fun other hmem => hall other (List.mem_cons_of_mem _ hmem)]
  simp only [fixed, taken, body, List.length_append, length_intBytes, hheld hheaders hshort]
  omega

/-! ## Records of buffers, strings and null -/

/-- No key, value or header value is a view. -/
def Plain (args : RecordArguments) : Prop :=
  ∀ value ∈ args.key :: args.value :: args.headersArray.map RecordHeader.value,
    ∀ byteLength printed, value ≠ .view byteLength printed

/-- The bytes of a value that is no view are counted exactly. -/
theorem sizeOfVarIntBytes_of_plain {value : RecordValue}
    (h : ∀ byteLength printed, value ≠ .view byteLength printed) :
    value.sizeOfVarIntBytes = value.bytes.length := by
  cases value with
  | null => exact sizeOfVarInt_eq (-1)
  | buffer bytes =>
      rw [RecordValue.sizeOfVarIntBytes, sizeOfVarInt_eq]
      exact List.length_append.symm
  | string text =>
      rw [RecordValue.sizeOfVarIntBytes, sizeOfVarInt_eq]
      exact List.length_append.symm
  | view byteLength printed => exact absurd rfl (h byteLength printed)

/-- The bytes of a plain record are counted exactly. -/
theorem Plain.counted_eq (h : args.Plain) : args.fixed + args.counted = args.body.length := by
  obtain ⟨hkey, hrest⟩ := List.forall_mem_cons.mp h
  obtain ⟨hvalue, hheaders⟩ := List.forall_mem_cons.mp hrest
  have hcounted : ∀ list : List RecordHeader, (∀ value ∈ list.map RecordHeader.value,
      ∀ byteLength printed, value ≠ .view byteLength printed) →
        (list.map RecordHeader.counted).sum = ((list.map RecordHeader.bytes).flatten).length := by
    intro list
    induction list with
    | nil => intro _; rfl
    | cons header list ih =>
        intro hall
        rw [List.map_cons] at hall
        obtain ⟨hheader, hothers⟩ := List.forall_mem_cons.mp hall
        rw [List.map_cons, List.sum_cons, List.map_cons, List.flatten_cons, List.length_append,
          ih hothers, RecordHeader.counted, RecordHeader.bytes, List.length_append,
          sizeOfVarIntBytes_of_plain hheader]
  simp only [fixed, counted, body, List.length_append, length_intBytes, hcounted _ hheaders,
    sizeOfVarIntBytes_of_plain hkey, sizeOfVarIntBytes_of_plain hvalue]
  omega

/-- Behind the length of a record of buffers, strings and null that takes fewer than `2 ^ 31` bytes
there are as many bytes. -/
theorem Plain.lengthExact {encoder : Encoder} (hplain : args.Plain)
    (h : args.encode = .ok encoder) (hshort : args.body.length < 2 ^ 31) :
    args.LengthExact encoder := by
  have hheaders : ∀ header ∈ args.headersArray, header.bytes.length < 2 ^ 31 := by
    intro header hmem
    have hle := (List.sublist_flatten_of_mem (List.mem_map_of_mem (f := RecordHeader.bytes)
      hmem)).length_le
    have hbody : ((args.headersArray.map RecordHeader.bytes).flatten).length ≤
        args.body.length := by
      simp only [body, List.length_append]
      omega
    omega
  rw [lengthExact_iff_bmod h, hplain.counted_eq, taken_of_encode h hheaders]
  exact Int.bmod_eq_of_le (by omega) (by omega)

/-- A record whose only part besides the deltas is its value. -/
def ofValue (value : RecordValue) : RecordArguments := { key := .null, value := value }

/-- A `Uint8Array` of one element is written behind its exact length, as its text. -/
theorem lengthExact_uint8Array :
    ∃ encoder, (ofValue (.uint8Array [7])).encode = .ok encoder ∧
      (ofValue (.uint8Array [7])).LengthExact encoder := by
  obtain ⟨encoder, hencode, -⟩ :=
    (@encode_builds (ofValue (.uint8Array [7])) (by decide)).ok (by decide)
  exact ⟨encoder, hencode, (lengthExact_iff hencode).mpr (by decide)⟩

/-- A `Uint8Array` of three elements is counted as three bytes and written as the five of
`1,2,3`. -/
theorem not_lengthExact_uint8Array :
    ¬ ∀ (args : RecordArguments) (encoder : Encoder), args.encode = .ok encoder →
      args.LengthExact encoder := by
  intro hall
  obtain ⟨encoder, hencode, -⟩ :=
    (@encode_builds (ofValue (.uint8Array [1, 2, 3])) (by decide)).ok (by decide)
  have hexact := (lengthExact_iff_bmod hencode).mp (hall _ _ hencode)
  revert hexact
  decide

end RecordArguments

end KafkaJs.Protocol
