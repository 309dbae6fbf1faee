import KafkaJs.Data.TextRecord
import KafkaJs.Protocol.RecordBatchRoundTrip

/-!
# Record headers

The headers of one record, decoded from any sequence of entries, and encoded from any headers
object. The decoder folds the entries into an object: the second value under a key turns its value
into a list. It tests whether the key is there by reading it from the object, and an object literal
answers to the names of `Object.prototype` too. The encoder takes the size of a value before it asks
whether the value is null.

`headersFaithful_iff` says when the entries come out of the decoder as they are and when a headers
object comes back from encoder and decoder.
-/

namespace KafkaJs.Protocol

open KafkaJs.Data

/-! ## Entries -/

/-- A header as it was given. -/
def Header.given (header : Header) : Text × Option Bytes :=
  (header.key, header.value.map Payload.bytes)

/-- The object has exactly the keys that occur in the headers; a key that occurs once has its value,
a key that occurs more often the list of its values in order. -/
def Collects (headers : List Header) (object : InsertionMap Text HeaderEntry) : Prop :=
  ∀ name, object.get? name = presented (valuesUnder (headers.map Header.given) name)

/-- The decoder of a record finds the headers that the record has. -/
def WireRecord.HeadersDecoded (context : BatchContext) (magicByte : Int) (record : WireRecord) :
    Prop :=
  ∃ decoded, Reads (readRecord context magicByte) record.body decoded ∧
    Collects record.headers decoded.headers

/-- UTF-8 carries the key, and no object has a property of this name by itself. -/
def Preserved (key : Text) : Prop := key.toWellFormed = key ∧ ¬ IsInherited key

/-- `Preserved` is decidable by two conditions on the name. -/
instance (key : Text) : Decidable (Preserved key) := inferInstanceAs (Decidable (_ ∧ _))

/-- A name is presented as absent exactly when no value stands under it. -/
theorem presented_eq_none_iff {values : List (Option Bytes)} : presented values = none ↔ values = [] := by
  match values with
  | [] => exact ⟨fun _ => rfl, fun _ => rfl⟩
  | [_] => exact ⟨nofun, nofun⟩
  | _ :: _ :: _ => exact ⟨nofun, nofun⟩

/-- A name has given values exactly when some header carries it. -/
theorem valuesUnder_given_ne_nil {headers : List Header} {name : Text} :
    valuesUnder (headers.map Header.given) name ≠ [] ↔
      ∃ header ∈ headers, header.key = name := by
  simp [valuesUnder, Header.given]

/-- A name has decoded values exactly when some header's name decodes to it. -/
theorem valuesUnder_decoded_ne_nil {headers : List Header} {name : Text} :
    valuesUnder (headers.map Header.decoded) name ≠ [] ↔
      ∃ header ∈ headers, header.key.toWellFormed = name := by
  simp [valuesUnder, Header.decoded]

/-- Values are never presented with an inherited property among them. -/
theorem presented_ne_inherited (values : List (Option Bytes)) (name : Text)
    (items : List HeaderItem) :
    presented values ≠ some (.many (.inherited name :: items)) := by
  match values with
  | [] => exact nofun
  | [_] => exact nofun
  | first :: second :: rest =>
      intro h
      have hitems := HeaderEntry.many.inj (Option.some.inj h)
      cases (List.cons.inj hitems).1

/-- No key that UTF-8 cannot carry is decoded. -/
theorem valuesUnder_decoded_eq_nil {headers : List Header} {name : Text}
    (h : name.toWellFormed ≠ name) : valuesUnder (headers.map Header.decoded) name = [] := by
  by_contra hvalues
  obtain ⟨header, _, hkey⟩ := valuesUnder_decoded_ne_nil.mp hvalues
  exact h (by rw [← hkey, Text.toWellFormed_toWellFormed])

/-- The fold over the decoded entries collects the headers exactly if each key is preserved. -/
theorem collects_iff (headers : List Header) :
    Collects headers ((headers.map Header.decoded).foldl addHeader .empty) ↔
      ∀ header ∈ headers, Preserved header.key := by
  constructor
  · intro h header hheader
    have hget := h header.key
    rw [headers_get?] at hget
    have hoccurs : valuesUnder (headers.map Header.given) header.key ≠ [] :=
      valuesUnder_given_ne_nil.mpr ⟨header, hheader, rfl⟩
    have hwellFormed : header.key.toWellFormed = header.key := by
      by_contra hlone
      rw [valuesUnder_decoded_eq_nil hlone, stored, if_neg fun h => h.2 rfl] at hget
      exact hoccurs (presented_eq_none_iff.mp hget.symm)
    refine ⟨hwellFormed, fun hinherited => ?_⟩
    have hdecoded : valuesUnder (headers.map Header.decoded) header.key ≠ [] :=
      valuesUnder_decoded_ne_nil.mpr ⟨header, hheader, hwellFormed⟩
    rw [stored, if_pos ⟨hinherited, hdecoded⟩] at hget
    exact presented_ne_inherited _ _ _ hget.symm
  · intro h name
    have hsame : headers.map Header.decoded = headers.map Header.given :=
      List.map_congr_left fun header hheader => Prod.ext (h header hheader).1 rfl
    rw [headers_get?, hsame, stored, if_neg]
    intro hstored
    obtain ⟨header, hheader, hkey⟩ := valuesUnder_given_ne_nil.mp hstored.2
    exact (h header hheader).2 (hkey ▸ hstored.1)

/-- The headers of a record are decoded as they are exactly if each key is preserved. -/
theorem WireRecord.InRange.headersDecoded_iff {record : WireRecord} (h : record.InRange)
    (context : BatchContext) (magicByte : Int) :
    record.HeadersDecoded context magicByte ↔ ∀ header ∈ record.headers, Preserved header.key := by
  rw [← collects_iff]
  constructor
  · intro hdecoded
    obtain ⟨decoded, hreads, hcollects⟩ := hdecoded
    rw [RecordBatch.reads_unique hreads (h.reads context magicByte)] at hcollects
    exact hcollects
  · intro hcollects
    exact ⟨record.decoded context magicByte, h.reads context magicByte, hcollects⟩

/-! ## Objects -/

/-- The values of a property of a headers object. -/
def HeaderValue.values : HeaderValue → List (Option Payload)
  | .single value => [value]
  | .list values => values

/-- A value, or a list of at least two. -/
def HeaderValue.Proper : HeaderValue → Prop
  | .single _ => True
  | .list values => 2 ≤ values.length

/-- The property as the decoder presents it: the values as bytes. -/
def HeaderValue.entry : HeaderValue → HeaderEntry
  | .single value => .single (.value (value.map Payload.bytes))
  | .list values => .many (values.map fun value => .value (value.map Payload.bytes))

/-- Each key of the headers object has a value or a list of at least two. -/
def Record.ProperHeaders (record : Record) : Prop :=
  ∀ key, ∀ value ∈ record.headers.get? key, value.Proper

/-- The record is encoded, and the decoder finds the headers object that was given in it, wherever
the record stands and whatever follows. -/
def Record.HeadersReturned (context : BatchContext) (magicByte : Int) (record : Record) : Prop :=
  ∃ encoder decoded, record.encode = .ok encoder ∧
    Reads (decodeRecord context magicByte) encoder.buffer decoded ∧
    ∀ name, decoded.headers.get? name = (record.headers.get? name).map HeaderValue.entry

/-- The headers of one entry are its values, each under the entry's name. -/
theorem map_given_headersOf (entry : Text × HeaderValue) :
    (headersOf entry).map Header.given =
      entry.2.values.map fun value => (entry.1, value.map Payload.bytes) := by
  obtain ⟨key, value | values⟩ := entry
  · rfl
  · show (values.map _).map _ = values.map _
    rw [List.map_map]
    rfl

/-- The entries of an object carry the values that it has under each name. -/
theorem valuesUnder_headersArray (record : Record) (name : Text) :
    valuesUnder (record.headersArray.map Header.given) name =
      ((record.headers.get? name).toList.flatMap HeaderValue.values).map
        (Option.map Payload.bytes) := by
  have hentries : ∀ entries : List (Text × HeaderValue),
      valuesUnder ((entries.flatMap headersOf).map Header.given) name =
        ((entries.filter fun entry => entry.1 = name).flatMap fun entry => entry.2.values).map
          (Option.map Payload.bytes) := by
    intro entries
    induction entries with
    | nil => rfl
    | cons entry entries ih =>
        rw [valuesUnder] at ih ⊢
        rw [List.flatMap_cons, List.map_append, List.filter_append, List.map_append, ih,
          map_given_headersOf, List.filter_cons]
        by_cases hname : entry.1 = name
        · simp [hname, List.filter_map, Function.comp_def]
        · simp [hname, List.filter_map, Function.comp_def]
  rw [Record.headersArray, hentries, InsertionMap.filter_entries_key]
  cases record.headers.get? name <;> rfl

/-- What is presented under a name is what the object has there. -/
theorem presented_headersArray {record : Record} (h : record.ProperHeaders) (name : Text) :
    presented (valuesUnder (record.headersArray.map Header.given) name) =
      (record.headers.get? name).map HeaderValue.entry := by
  rw [valuesUnder_headersArray]
  cases hget : record.headers.get? name with
  | none => rfl
  | some value =>
      have hproper := h name value hget
      cases value with
      | single value => rfl
      | list values =>
          -- a list of one value would be presented as the value
          match values, hproper with
          | first :: second :: rest, _ =>
              simp [presented, HeaderValue.values, HeaderValue.entry, Function.comp_def]

/-- The keys that occur are those of the object. -/
theorem preserved_headersArray_iff {record : Record} (h : record.ProperHeaders) :
    (∀ header ∈ record.headersArray, Preserved header.key) ↔
      ∀ key ∈ record.headers.keys, Preserved key := by
  have hoccurs : ∀ key, (∃ header ∈ record.headersArray, header.key = key) ↔
      key ∈ record.headers.keys := by
    intro key
    rw [← valuesUnder_given_ne_nil, ne_eq, ← presented_eq_none_iff, presented_headersArray h,
      Option.map_eq_none_iff, InsertionMap.get?_eq_none_iff, not_not]
  constructor
  · intro hpreserved key hkey
    obtain ⟨header, hheader, hname⟩ := (hoccurs key).mpr hkey
    exact hname ▸ hpreserved header hheader
  · intro hpreserved header hheader
    exact hpreserved header.key ((hoccurs header.key).mp ⟨header, hheader, rfl⟩)

section Returned

variable {record : Record} {context : BatchContext} {magicByte : Int}

/-- A record that is encoded comes back as its wire form. -/
theorem Record.headersReturned_iff_of_encode {encoder : Encoder} (hrange : record.wire.InRange)
    (hproper : record.ProperHeaders) (hencode : record.encode = .ok encoder)
    (hholds : encoder.Holds record.bytes) :
    record.HeadersReturned context magicByte ↔ ∀ key ∈ record.headers.keys, Preserved key := by
  have hreads : Reads (decodeRecord context magicByte) encoder.buffer
      (record.wire.decoded context magicByte) := by
    rw [hholds.buffer_eq]
    exact hrange.reads_lengthPrefixed context magicByte
  have hobject : (∀ name, (record.wire.decoded context magicByte).headers.get? name =
      (record.headers.get? name).map HeaderValue.entry) ↔
      Collects record.headersArray (record.wire.decoded context magicByte).headers :=
    forall_congr' fun name => by rw [presented_headersArray hproper]
  rw [← preserved_headersArray_iff hproper, ← collects_iff]
  show _ ↔ Collects record.headersArray (record.wire.decoded context magicByte).headers
  rw [← hobject]
  constructor
  · intro hreturned
    obtain ⟨other, decoded, hother, hdecoded, hsame⟩ := hreturned
    cases hencode.symm.trans hother
    rw [RecordBatch.reads_unique hdecoded hreads] at hsame
    exact hsame
  · intro hsame
    exact ⟨encoder, record.wire.decoded context magicByte, hencode, hreads, hsame⟩

/-- A headers object comes back if it has no value null and each key is preserved, and the record
fits an encoder. -/
theorem Record.headersReturned (hoffset : FitsInt 4 record.offsetDelta)
    (htimestamp : FitsInt 8 record.timestampDelta) (hproper : record.ProperHeaders)
    (hnull : record.NoNullHeader) (hkeys : ∀ key ∈ record.headers.keys, Preserved key)
    (hlength : record.bytes.length < 2 ^ 30) : record.HeadersReturned context magicByte := by
  have hshort : record.bytes.length < 2 ^ 31 := by omega
  have hrange := Record.wire_inRange hoffset htimestamp hshort
  rcases Record.encode_builds hnull hshort with ⟨encoder, hencode, hholds⟩ | ⟨hlarge, _⟩
  · exact (Record.headersReturned_iff_of_encode hrange hproper hencode hholds).mpr hkeys
  · omega

/-- Nothing else comes back. -/
theorem Record.HeadersReturned.only (h : record.HeadersReturned context magicByte)
    (hoffset : FitsInt 4 record.offsetDelta) (htimestamp : FitsInt 8 record.timestampDelta)
    (hproper : record.ProperHeaders) :
    record.NoNullHeader ∧ (record.bytes.length < 2 ^ 31 →
      (∀ key ∈ record.headers.keys, Preserved key) ∧ record.bytes.length ≤ 2 ^ 30) := by
  obtain ⟨encoder, _, hencode, _⟩ := id h
  have hnull : record.NoNullHeader := by
    by_contra hnull
    obtain ⟨error, herror⟩ := Record.encode_null hnull
    cases herror.symm.trans hencode
  refine ⟨hnull, fun hlength => ?_⟩
  have hrange := Record.wire_inRange hoffset htimestamp hlength
  rcases Record.encode_builds hnull hlength with ⟨other, hother, hholds⟩ | ⟨_, error, herror⟩
  · exact ⟨(Record.headersReturned_iff_of_encode hrange hproper hother hholds).mp h,
      hholds.length_le.trans hholds.bounded⟩
  · cases herror.symm.trans hencode

end Returned

/-! ## Both directions -/

/-- The headers of a record are decoded as they stand exactly if no key is the name of a property
that every object inherits (nor one that UTF-8 cannot carry). A headers object comes back from the
encoder and the decoder if besides none of its values is null and the record fits an encoder; below
`2 ^ 31` bytes nothing else does. -/
theorem headersFaithful_iff (context : BatchContext) (magicByte : Int) :
    (∀ record : WireRecord, record.InRange →
      (record.HeadersDecoded context magicByte ↔
        ∀ header ∈ record.headers, Preserved header.key)) ∧
    ∀ record : Record, FitsInt 4 record.offsetDelta → FitsInt 8 record.timestampDelta →
      record.ProperHeaders →
      (record.NoNullHeader ∧ (∀ key ∈ record.headers.keys, Preserved key) ∧
          record.bytes.length < 2 ^ 30 → record.HeadersReturned context magicByte) ∧
        (record.HeadersReturned context magicByte → record.NoNullHeader ∧
          (record.bytes.length < 2 ^ 31 →
            (∀ key ∈ record.headers.keys, Preserved key) ∧ record.bytes.length ≤ 2 ^ 30)) := by
  refine ⟨fun record hrange => hrange.headersDecoded_iff context magicByte, ?_⟩
  intro record hoffset htimestamp hproper
  refine ⟨fun h => ?_, fun h => h.only hoffset htimestamp hproper⟩
  exact Record.headersReturned hoffset htimestamp hproper h.1 h.2.1 h.2.2

/-- The context of the samples. -/
def sampleContext : BatchContext := (RecordBatch.sample (.single none)).context

/-- A record on the wire with two headers of one name around another one. -/
def wireSample (name : String) : WireRecord :=
  { timestampDelta := 0
    offsetDelta := 0
    key := none
    value := some [1]
    headers :=
      [⟨Text.ofString name, some (.buffer [1])⟩, ⟨Text.ofString "hop", none⟩,
        ⟨Text.ofString name, some (.buffer [2])⟩] }

/-- The sample record is in range as long as its body is. -/
theorem wireSample_inRange (name : String) (h : (wireSample name).body.length < 2 ^ 31) :
    (wireSample name).InRange where
  attributes := show FitsInt 1 0 by decide
  timestampDelta := show FitsInt 8 0 by decide
  offsetDelta := show FitsInt 4 0 by decide
  length := h

/-- A record to encode, with one header. -/
def headerSample (value : Option Payload) : Record :=
  { key := none, value := none
    headers := InsertionMap.empty.set (Text.ofString "trace") (.single value) }

/-- The one header of the sample record is proper. -/
theorem headerSample_proper (value : Option Payload) : (headerSample value).ProperHeaders := by
  intro key found hfound
  rw [Option.mem_def, headerSample, InsertionMap.get?_set, InsertionMap.get?_empty] at hfound
  split at hfound
  · cases hfound
    trivial
  · cases hfound

/-- A well-formed sample name is decoded as written, a buffer returned as given. -/
theorem headersFaithful_sample :
    (wireSample "trace").HeadersDecoded sampleContext 2 ∧
      (headerSample (some (.buffer [3]))).HeadersReturned sampleContext 2 :=
  ⟨((headersFaithful_iff sampleContext 2).1 _ (wireSample_inRange "trace" (by decide))).mpr
      (by decide),
    ((headersFaithful_iff sampleContext 2).2 _ (show FitsInt 4 0 by decide)
      (show FitsInt 8 0 by decide) (headerSample_proper _)).1 (by decide)⟩

/-- A header named `toString` is not decoded as it stands, and a header value null is not
encoded. -/
theorem not_headersFaithful_samples :
    ¬ (wireSample "toString").HeadersDecoded sampleContext 2 ∧
      ¬ (headerSample none).HeadersReturned sampleContext 2 := by
  constructor
  · rw [(wireSample_inRange "toString" (by decide)).headersDecoded_iff]
    decide
  · intro h
    have hnull := (h.only (show FitsInt 4 0 by decide) (show FitsInt 8 0 by decide)
      (headerSample_proper none)).1
    revert hnull
    decide

end KafkaJs.Protocol
