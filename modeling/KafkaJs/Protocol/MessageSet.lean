import KafkaJs.Protocol.Primitives
import KafkaJs.Protocol.RecordBatch
import KafkaJs.Utils.Number

/-!
# Message sets

The decoder of the formats with magic byte 0 and 1 (`protocol/messageSet/decoder.js` and
`protocol/message/decoder.js`). A length that is read may be negative and moves the decoder back, so
the loops need not end. They run for a bounded number of rounds here: `none` is a loop that still
goes on. The entries of a compressed message are the arguments of one call of `push`; how many of
them the engine takes is left out.
-/

namespace KafkaJs.Protocol

open KafkaJs.Data

/-- What a loop comes to within a bounded number of rounds; `none` while it goes on. -/
abbrev Bounded (α : Type) := Option (Except KafkaError α)

/-- A message of a message set. -/
structure Message where
  offset : Int
  size : Int
  crc : Int
  magicByte : Int
  attributes : Int
  timestamp : Option Int
  key : Option Bytes
  value : Option Bytes
  deriving DecidableEq

namespace MessageSet

/-- An error about a message of which not all bytes are there. -/
def partialMessage (message : String) : KafkaError :=
  { name := .kafkaJSPartialMessageError
    message := "Tried to decode a partial message: " ++ message
    retriable := some false }

/-- `decodeMessage`: version 1 adds a timestamp to version 0. -/
def decodeMessage (offset size crc magicByte : Int) : Reader Message :=
  match magicByte with
  | 0 => do
      let attributes ← Decoder.readInt8
      let key ← Decoder.readBytes
      let value ← Decoder.readBytes
      pure { offset, size, crc, magicByte, attributes, timestamp := none, key, value }
  | 1 => do
      let attributes ← Decoder.readInt8
      let timestamp ← Decoder.readInt64
      let key ← Decoder.readBytes
      let value ← Decoder.readBytes
      pure { offset, size, crc, magicByte, attributes, timestamp := some timestamp, key, value }
  | _ =>
      throw { name := .kafkaJSUnsupportedMagicByteInMessageSet
              message := "Unsupported MessageSet message version, magic byte: " ++
                toString magicByte
              retriable := some false }

/-- `MessageDecoder`. -/
def messageDecoder (offset size : Int) : Reader Message := do
  let remainingBytes := ((← get).slice size).buffer.length
  if (remainingBytes : Int) < size then
    throw (partialMessage ("remainingBytes(" ++ toString remainingBytes ++ ") < messageSize(" ++
      toString size ++ ")"))
  let crc ← Decoder.readInt32
  let magicByte ← Decoder.readInt8
  decodeMessage offset size crc magicByte

/-- `EntryDecoder`. -/
def entryDecoder : Reader Message := do
  if ¬ (← get).canReadBytes 8 then
    throw (partialMessage "There isn't enough bytes to read the offset")
  let offset ← Decoder.readInt64
  if ¬ (← get).canReadBytes 4 then
    throw (partialMessage "There isn't enough bytes to read the message size")
  let size ← Decoder.readInt32
  messageDecoder offset size

/-- The loop of `EntriesDecoder`. -/
def entriesLoop : Nat → List Message → Decoder → Bounded (List Message)
  | 0, _, _ => none
  | fuel + 1, messages, decoder =>
      if decoder.offset < decoder.buffer.length then
        match entryDecoder decoder with
        | .ok (message, decoder) => entriesLoop fuel (messages ++ [message]) decoder
        | .error error => some (.error error)
      else some (.ok messages)

/-- The offsets of the messages in a compressed message, which are relative from version 1 on. The
difference of two `Long`s is taken on numbers. -/
def absoluteOffsets (compressedMessage : Message) (messages : List Message) :
    Except KafkaError (List Message) :=
  if compressedMessage.magicByte > 0 ∧ compressedMessage.offset ≥ 0 then
    match messages.getLast? with
    | none =>
        .error { name := .typeError
                 message := "Cannot read properties of undefined (reading 'offset')"
                 retriable := none }
    | some last =>
        let baseOffset :=
          Number.ofInt (Number.ofInt compressedMessage.offset - Number.ofInt last.offset)
        .ok (messages.map fun message => { message with offset := message.offset + baseOffset })
  else .ok messages

/-- `EntriesDecoder`. -/
def entriesDecoder (fuel : Nat) (decoder : Decoder) (compressedMessage : Message) :
    Bounded (List Message) :=
  (entriesLoop fuel [] decoder).map (· >>= absoluteOffsets compressedMessage)

/-- `codec.decompress` of the value of a message; null is not a buffer. -/
def decompressValue (codec : Codec) (value : Option Bytes) : Except KafkaError Bytes :=
  match value with
  | some buffer => codec.decompress buffer
  | none =>
      .error { name := .typeError
               message := "The \"buffer\" argument must be an instance of Buffer. Received null"
               retriable := none }

/-- One round of the loop over the message set: the messages of one entry. -/
def decodeEntry (codecs : Codecs) (fuel : Nat) (decoder : Decoder) :
    Bounded (List Message × Decoder) :=
  match entryDecoder decoder with
  | .error error => some (.error error)
  | .ok (message, decoder) =>
      match lookupCodecByAttributes codecs message.attributes with
      | .error error => some (.error error)
      | .ok none => some (.ok ([message], decoder))
      | .ok (some codec) =>
          match decompressValue codec message.value with
          | .error error => some (.error error)
          | .ok buffer =>
              (entriesDecoder fuel (Decoder.new buffer) message).map fun messages =>
                messages.map fun messages => (messages, decoder)

/-- The errors at which the loop over the message set stops without failing. -/
def endsMessageSet (error : KafkaError) : Bool :=
  error.name = .kafkaJSPartialMessageError ∨
    error.name = .kafkaJSUnsupportedMagicByteInMessageSet

/-- The loop over the message set. -/
def messageSetLoop (codecs : Codecs) (messageSetSize : Int) :
    Nat → List Message → Decoder → Bounded (List Message)
  | 0, _, _ => none
  | fuel + 1, messages, decoder =>
      if decoder.offset < messageSetSize then
        match decodeEntry codecs fuel decoder with
        | none => none
        | some (.ok (decoded, decoder)) =>
            messageSetLoop codecs messageSetSize fuel (messages ++ decoded) decoder
        | some (.error error) =>
            if endsMessageSet error then some (.ok messages) else some (.error error)
      else some (.ok messages)

/-- `MessageSetDecoder`. The size is read where none is given. -/
def messageSetDecoder (codecs : Codecs) (fuel : Nat) (size : Option Int)
    (primaryDecoder : Decoder) : Bounded (List Message × Decoder) :=
  let readSize : Reader Int :=
    match size with
    | some size => if size = 0 then Decoder.readInt32 else pure size
    | none => Decoder.readInt32
  match readSize primaryDecoder with
  | .error error => some (.error error)
  | .ok (messageSetSize, primaryDecoder) =>
      (messageSetLoop codecs messageSetSize fuel [] (primaryDecoder.slice messageSetSize)).map
        fun messages => messages.map fun messages =>
          (messages, { primaryDecoder with offset := primaryDecoder.offset + messageSetSize })

end MessageSet

end KafkaJs.Protocol
