import Mathlib.Logic.Basic

/-!
# Errors

The attributes of an error that decide how it is handled (`errors.js`, `protocol/error.js`):
its name, whether it is marked retriable, and for protocol errors the code. Codes and the `type`
strings of `protocol/error.js` correspond one to one, so a check on the type is a check on the
code here.
-/

namespace KafkaJs

/-- The names on which error handling branches. -/
inductive ErrorName where
  | kafkaJSError
  | kafkaJSNonRetriableError
  | kafkaJSProtocolError
  | kafkaJSConnectionError
  | kafkaJSConnectionClosedError
  | kafkaJSRequestTimeoutError
  | kafkaJSMetadataNotLoaded
  | kafkaJSTopicMetadataNotLoaded
  | kafkaJSBrokerNotFound
  | kafkaJSLockTimeout
  | kafkaJSPartialMessageError
  | kafkaJSInvariantViolation
  | kafkaJSSASLAuthenticationError
  | kafkaJSUnsupportedMagicByteInMessageSet
  | kafkaJSNotImplemented
  | kafkaJSServerDoesNotSupportApiKey
  | kafkaJSNoBrokerAvailableError
  | kafkaJSFetcherRebalanceError
  | error
  | rangeError
  | referenceError
  | syntaxError
  | typeError
  deriving DecidableEq, Repr

/-- An error. `retriable` is `none` where the attribute is undefined, as on errors of the
language itself; `code` is present on protocol errors. -/
structure KafkaError where
  name : ErrorName
  message : String
  retriable : Option Bool := some true
  code : Option Int := none
  deriving DecidableEq, Repr

/-- The codes that `errorCodes` marks as retriable. -/
def retriableCodes : List Int :=
  [2, 3, 5, 6, 7, 9, 13, 14, 15, 16, 19, 20, 41, 51, 56, 70, 71, 72, 74, 75, 78, 80, 83, 84, 88,
    89, 100, 103, 106, 120, 121, 122]

/-- `failure` of `protocol/error.js`. -/
def failure (code : Int) : Bool := code ≠ 0

/-- `createErrorFromCode`: unknown codes are not retriable. -/
def createErrorFromCode (code : Int) : KafkaError :=
  { name := .kafkaJSProtocolError, message := "protocol error",
    retriable := some (decide (code ∈ retriableCodes)), code := some code }

/-- `staleMetadata`: the types `UNKNOWN_TOPIC_OR_PARTITION`, `LEADER_NOT_AVAILABLE`,
`NOT_LEADER_FOR_PARTITION` and `UNKNOWN_TOPIC_ID`. -/
def staleMetadata (error : KafkaError) : Bool :=
  error.code = some 3 ∨ error.code = some 5 ∨ error.code = some 6 ∨ error.code = some 100

/-- `isRebalancing`: the types `REBALANCE_IN_PROGRESS`, `NOT_COORDINATOR_FOR_GROUP` and
`ILLEGAL_GENERATION`. -/
def isRebalancing (error : KafkaError) : Bool :=
  error.code = some 27 ∨ error.code = some 16 ∨ error.code = some 22

/-- `isErrorUnrecoverable` of `retry/index.js`: errors of the language itself. -/
def isErrorUnrecoverable (error : KafkaError) : Bool :=
  error.name = .rangeError ∨ error.name = .referenceError ∨ error.name = .syntaxError ∨
    error.name = .typeError

/-- `isErrorRetriable` of `retry/index.js`: retriable unless marked otherwise. -/
def isErrorRetriable (error : KafkaError) : Bool :=
  error.retriable ≠ some false ∧ isErrorUnrecoverable error = false

end KafkaJs
