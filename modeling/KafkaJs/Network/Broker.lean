import KafkaJs.Network.Connection
import KafkaJs.Utils.Lock

/-!
# A broker

`connect`, `disconnect` and `isConnected` of `broker/index.js` over the two connections of its
`network/connectionPool.js`. A call of `connect` is an attempt, which goes through the phases
between its `await`s under the lock of the broker; everything else that happens to the connections
happens in between. `connectBroker` of `cluster/brokerPool.js` is what repeats the attempts,
disconnects the broker and rebuilds its pool.
-/

namespace KafkaJs.Network

open KafkaJs.Execution KafkaJs.Utils

/-! ## Looking up requests -/

/-- The versions of a request that a server offers. -/
structure ApiVersion where
  apiKey : Int
  minVersion : Int
  maxVersion : Int
  deriving DecidableEq, Repr

/-- The versions object of a broker, by the entries of the response from which it is built; a later
entry replaces an earlier one. -/
abbrev ApiVersions := List ApiVersion

/-- `lookup(versions)` of `protocol/requests`: the version that is used for a request whose best
implemented version is given. -/
def lookup (versions : ApiVersions) (apiKey bestImplementedVersion : Int) :
    Except KafkaError Int :=
  match versions.reverse.find? fun version => version.apiKey = apiKey with
  | some version => .ok (min bestImplementedVersion version.maxVersion)
  | none =>
      .error { name := .kafkaJSServerDoesNotSupportApiKey,
               message := "The Kafka server does not support the requested API version",
               retriable := some false }

/-- The error of `notInitializedLookup`. -/
def brokerNotConnected : KafkaError :=
  { name := .error, message := "Broker not connected", retriable := none }

/-- The function `lookupRequest` of a broker. -/
inductive LookupRequest where
  | notInitializedLookup
  | lookup (versions : ApiVersions)
  deriving DecidableEq, Repr

/-- A call of `lookupRequest`, with which every request of a broker begins. -/
def LookupRequest.call (apiKey bestImplementedVersion : Int) :
    LookupRequest → Except KafkaError Int
  | .notInitializedLookup => .error brokerNotConnected
  | .lookup versions => Network.lookup versions apiKey bestImplementedVersion

/-- The best implemented version of `SaslHandshake`. -/
def saslHandshakeBestVersion : Int := 1

/-- `requests.ApiVersions.versions` from the last to the first. -/
def apiVersionsCandidates : List Int := [3, 2, 1, 0]

/-! ## The state -/

/-- Where a call of `connect` is: waiting for the lock, about to go on with it, in `getConnection`,
in `apiVersions` with the candidates that are left, in the `disconnect` of a closed connection, or
in `authenticate`. `pool` numbers the connection pool that it uses. -/
inductive ConnectPhase where
  | waiting
  | acquired
  | connecting (pool : Nat)
  | fetchingVersions (pool : Nat) (candidates : List Int)
  | closing (error : KafkaError)
  | authenticating
  | resolved
  | rejected (error : KafkaError)
  deriving DecidableEq

/-- The fields of a broker. `pool` are the connections of the current connection pool, the one with
the number `pools`; `attempts` are the calls of `connect`. -/
structure Broker where
  options : ConnectionOptions
  versions : Option ApiVersions
  lookupRequest : LookupRequest
  pool : List Connection
  pools : Nat
  lock : Lock Nat
  attempts : List ConnectPhase

namespace Broker

/-- `new ConnectionPool(options)`. -/
def newPool (options : ConnectionOptions) : List Connection :=
  List.replicate 2 (Connection.new options)

/-- `new Broker(...)`. -/
def new (options : ConnectionOptions) (versions : Option ApiVersions) : Broker :=
  { options, versions, lookupRequest := .notInitializedLookup, pool := newPool options, pools := 0,
    lock := .free, attempts := [] }

/-- `isConnected`. -/
def isConnected (hrtime : Int) (broker : Broker) : Bool :=
  if broker.options.sasl then
    broker.pool.any Connection.isConnected && broker.pool.any (Connection.isAuthenticated hrtime)
  else broker.pool.any Connection.isConnected

/-- A call of `connect` is in another phase. -/
def setPhase (attempt : Nat) (phase : ConnectPhase) (broker : Broker) : Broker :=
  { broker with attempts := broker.attempts.set attempt phase }

/-- A call of `connect` ends and releases the lock. -/
def finish (attempt : Nat) (phase : ConnectPhase) (broker : Broker) : Broker :=
  match broker.lock.release with
  | (lock, none) => { broker.setPhase attempt phase with lock }
  | (lock, some next) => { (broker.setPhase attempt phase).setPhase next .acquired with lock }

/-- A call of `connect`. -/
def connect (broker : Broker) : Broker :=
  match broker.lock.acquire broker.attempts.length with
  | (lock, true) => { broker with lock, attempts := broker.attempts ++ [.acquired] }
  | (lock, false) => { broker with lock, attempts := broker.attempts ++ [.waiting] }

/-- `connect` has the lock: it returns early, or goes on with `getConnection` of the pool. -/
def resumeConnect (attempt : Nat) (hrtime : Int) (socketFails : Bool) (broker : Broker) : Broker :=
  if broker.isConnected hrtime then broker.finish attempt .resolved
  else
    { broker.setPhase attempt (.connecting broker.pools) with
      pool := broker.pool.modify 0 (Connection.connect socketFails) }

/-- `connect` knows the versions: it sets `lookupRequest` and authenticates the connection. -/
def setLookup (attempt : Nat) (hrtime : Int) (pool : Nat) (versions : ApiVersions)
    (broker : Broker) : Broker :=
  let connections := broker.pool.map fun connection =>
    { connection with
      saslHandshakeVersion := lookup versions saslHandshakeKey saslHandshakeBestVersion }
  { broker.setPhase attempt .authenticating with
    versions := some versions
    lookupRequest := .lookup versions
    pool :=
      if pool = broker.pools then connections.modify 0 (Connection.sharedAuthenticate hrtime)
      else connections }

/-- `connect` has its connection. -/
def connected (attempt : Nat) (hrtime : Int) (pool : Nat) (broker : Broker) : Broker :=
  match broker.versions with
  | some versions => broker.setLookup attempt hrtime pool versions
  | none => broker.setPhase attempt (.fetchingVersions pool apiVersionsCandidates)

/-- `disconnect` until it waits for the connections. -/
def disconnect (broker : Broker) : Broker :=
  { broker with pool := broker.pool.map Connection.disconnect }

/-- The request of `apiVersions` has failed: another candidate is tried if the version is not
supported, and a closed connection is disconnected first. -/
def apiVersionsFailed (attempt : Nat) (pool : Nat) (candidates : List Int) (error : KafkaError)
    (broker : Broker) : Broker :=
  if error.name = .kafkaJSConnectionClosedError then
    broker.disconnect.setPhase attempt (.closing error)
  else if error.code = some 35 then
    match candidates with
    | [] =>
        broker.finish attempt (.rejected { name := .kafkaJSNonRetriableError,
                                           message := "API Versions not supported",
                                           retriable := some false })
    | _ => broker.setPhase attempt (.fetchingVersions pool candidates)
  else broker.finish attempt (.rejected error)

/-! ## Runs -/

/-- What a connection does on behalf of a request that was looked up. -/
def usesLookup : Connection.Event → Bool
  | .authenticate _ => true
  | .send _ request => isAuthenticatedRequest request.apiKey
  | _ => false

/-- What happens to a broker. -/
inductive Event where
  | connect
  | lockTimeout (attempt : Nat)
  | resumeConnect (attempt : Nat) (hrtime : Int) (socketFails : Bool)
  | connected (attempt : Nat) (hrtime : Int)
  | connectFailed (attempt : Nat) (error : KafkaError)
  | apiVersions (attempt : Nat) (hrtime : Int) (response : Except KafkaError ApiVersions)
  | closed (attempt : Nat)
  | authenticated (attempt : Nat) (error : Option KafkaError)
  | disconnect
  | rebuildPool
  | connection (index : Nat) (event : Connection.Event)

/-- One event. A connection may do anything that needs no lookup, and everything after it. -/
def step (broker : Broker) : Event → Option Broker
  | .connect => some broker.connect
  | .lockTimeout attempt =>
      match broker.attempts[attempt]? with
      | some .waiting =>
          some { broker.setPhase attempt (.rejected { name := .kafkaJSLockTimeout,
                                                      message := "Timeout while acquiring lock",
                                                      retriable := some false }) with
            lock := broker.lock.expire attempt }
      | _ => none
  | .resumeConnect attempt hrtime socketFails =>
      match broker.attempts[attempt]? with
      | some .acquired => some (broker.resumeConnect attempt hrtime socketFails)
      | _ => none
  | .connected attempt hrtime =>
      match broker.attempts[attempt]? with
      | some (.connecting pool) => some (broker.connected attempt hrtime pool)
      | _ => none
  | .connectFailed attempt error =>
      match broker.attempts[attempt]? with
      | some (.connecting _) => some (broker.finish attempt (.rejected error))
      | _ => none
  | .apiVersions attempt hrtime response =>
      match broker.attempts[attempt]?, response with
      | some (.fetchingVersions pool _), .ok versions =>
          some (broker.setLookup attempt hrtime pool versions)
      | some (.fetchingVersions pool candidates), .error error =>
          some (broker.apiVersionsFailed attempt pool candidates.tail error)
      | _, _ => none
  | .closed attempt =>
      match broker.attempts[attempt]? with
      | some (.closing error) => some (broker.finish attempt (.rejected error))
      | _ => none
  | .authenticated attempt error =>
      match broker.attempts[attempt]? with
      | some .authenticating =>
          some (broker.finish attempt (error.elim .resolved .rejected))
      | _ => none
  | .disconnect => some broker.disconnect
  | .rebuildPool =>
      some { broker with pool := newPool broker.options, pools := broker.pools + 1 }
  | .connection index event =>
      match broker.pool[index]? with
      | some connection =>
          if usesLookup event ∧ broker.lookupRequest = .notInitializedLookup then none
          else
            (connection.step event).map fun next =>
              { broker with pool := broker.pool.set index next }
      | none => none

end Broker

end KafkaJs.Network
