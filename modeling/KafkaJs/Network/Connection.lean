import KafkaJs.Network.Reconnection
import KafkaJs.Network.RequestMoves

/-!
# A connection

`network/connection.js` without the framing: `connect`, `disconnect`, the events of the sockets, the
authentication and `send`, whose parts before and after every `await` are events of their own. What
the bytes of a socket are to the connection, a response of a request or one of an authentication
exchange, is an event too.

Sockets and calls are numbered. `history` records what has been written to which socket, and the
sockets on which an authentication exchange has completed.
-/

namespace KafkaJs.Network

open KafkaJs.Data KafkaJs.Execution KafkaJs.Protocol

/-! ## Requests of the protocol -/

/-- `apiKeys.SaslHandshake`. -/
def saslHandshakeKey : Int := 17

/-- `apiKeys.ApiVersions`. -/
def apiVersionsKey : Int := 18

/-- `apiKeys.SaslAuthenticate`. -/
def saslAuthenticateKey : Int := 36

/-- `INT_32_MAX_VALUE`. -/
def int32MaxValue : Int := 2147483647

/-- The request that is passed to `send`, with the timeout for it. -/
structure ProtocolRequest where
  apiKey : Int
  apiName : String
  apiVersion : Int
  expectResponse : Bool
  requestTimeout : Option Int
  deriving DecidableEq, Repr

/-- `isAuthenticatedRequest`, for the key of a request. -/
def isAuthenticatedRequest (apiKey : Int) : Bool :=
  apiKey ∉ [apiVersionsKey, saslHandshakeKey, saslAuthenticateKey]

/-- The first request of an exchange. -/
def saslHandshake (apiVersion : Int) : ProtocolRequest :=
  { apiKey := saslHandshakeKey, apiName := "SaslHandshake", apiVersion, expectResponse := true,
    requestTimeout := none }

/-- A part of the history of a connection: a request has been written to a socket, the raw bytes of
an exchange have been, or an exchange has completed whose writes all were to one socket. -/
inductive Mark where
  | wrote (socket : Nat) (apiKey : Int)
  | wroteAuth (socket : Nat)
  | exchanged (socket : Nat)
  deriving DecidableEq, Repr

/-- The socket to which an exchange has written. -/
def Mark.exchangeSocket : Mark → Option Nat
  | .wrote socket apiKey =>
      if apiKey = saslHandshakeKey ∨ apiKey = saslAuthenticateKey then some socket else none
  | .wroteAuth socket => some socket
  | .exchanged _ => none

/-! ## The state -/

/-- The shared promise of `AUTHENTICATE`: an exchange goes on that began when the history had the
length `since`, or the promise is settled, when the connection had the socket `on`, and the callback
that clears it has not run. -/
inductive Authentication where
  | running (since : Nat)
  | settled (on : Nat) (error : Option KafkaError)
  deriving DecidableEq

/-- Where a call of `send` waits: for the shared promise, to go on after it, for `createRequest`, or
for the request that it has pushed. -/
inductive SendPhase where
  | authenticating
  | authenticated
  | encoding (correlationId : Int)
  | pushed (ref : Nat)
  | failed (error : KafkaError)
  deriving DecidableEq

/-- A call of `send`. `checkedOn` is the socket of the connection when the call passed the check of
the authentication. -/
structure Send where
  request : ProtocolRequest
  phase : SendPhase
  checkedOn : Option Nat
  deriving DecidableEq

/-- What the shared promise tells a call of `send` that waits for it. -/
def Send.wake (on : Nat) (error : Option KafkaError) (send : Send) : Send :=
  match send.phase, error with
  | .authenticating, none => { send with phase := .authenticated, checkedOn := some on }
  | .authenticating, some error => { send with phase := .failed error }
  | _, _ => send

/-- The fields of a connection. `sasl` says whether there are SASL options. `saslHandshakeVersion`
is what the known api versions give for `SaslHandshake`, or the error with which the constructor of
the authenticator fails. `socket` is the current socket, the last one that was created, and 0 before
there is one. `authEncoding` counts the calls of `sendAuthRequest` whose request is being encoded.
Times of the authentication are in nanoseconds, durations in milliseconds. -/
structure Connection where
  sasl : Bool
  reauthenticationThreshold : Int
  connectionStatus : ConnectionStatus
  correlationId : Int
  requestQueue : RequestQueue
  authHandlers : Bool
  authEncoding : Nat
  authenticatedAt : Option Int
  sessionLifetime : Int
  saslHandshakeVersion : Except KafkaError Int
  authentication : Option Authentication
  socket : Nat
  disconnects : Nat
  sends : List Send
  history : List Mark

/-- The options of a connection. -/
structure ConnectionOptions where
  sasl : Bool
  reauthenticationThreshold : Int
  maxInFlightRequests : Option Nat
  requestTimeout : Int
  enforceRequestTimeout : Bool
  deriving DecidableEq, Repr

namespace Connection

/-- `new Connection(options)`: without api versions the authenticator cannot be made. -/
def new (options : ConnectionOptions) : Connection :=
  { sasl := options.sasl, reauthenticationThreshold := options.reauthenticationThreshold,
    connectionStatus := .disconnected, correlationId := 0,
    requestQueue := .new options.maxInFlightRequests options.requestTimeout
      options.enforceRequestTimeout,
    authHandlers := false, authEncoding := 0, authenticatedAt := none, sessionLifetime := 0,
    saslHandshakeVersion := .error { name := .typeError,
                                     message := "Cannot read properties of null",
                                     retriable := none },
    authentication := none, socket := 0, disconnects := 0, sends := [], history := [] }

/-- `isConnected`. -/
def isConnected (connection : Connection) : Bool := connection.connectionStatus ∈ connectedStatus

/-- The error of `failIfNotConnected`. -/
def notConnected : KafkaError := { name := .kafkaJSConnectionError, message := "Not connected" }

/-- `nextCorrelationId`: the id and the connection afterwards. -/
def nextCorrelationId (connection : Connection) : Int × Connection :=
  let id := if int32MaxValue ≤ connection.correlationId then 0 else connection.correlationId
  (id, { connection with correlationId := id + 1 })

/-- `SHOULD_REAUTHENTICATE`. -/
def shouldReauthenticate (hrtime : Int) (connection : Connection) : Bool :=
  if connection.sessionLifetime = 0 then false
  else
    match connection.authenticatedAt with
    | none => true
    | some authenticatedAt =>
        let millisSince := (hrtime - authenticatedAt) / 1000000
        connection.sessionLifetime ≤ millisSince + connection.reauthenticationThreshold

/-- `isAuthenticated`. -/
def isAuthenticated (hrtime : Int) (connection : Connection) : Bool :=
  connection.authenticatedAt.isSome ∧ ¬ connection.shouldReauthenticate hrtime

/-- The queue has done something; the requests that it has sent have been written to the socket. -/
def withQueue (queue : RequestQueue) (connection : Connection) : Connection :=
  { connection with
    requestQueue := queue
    history := connection.history ++
      (queue.written.drop connection.requestQueue.written.length).map fun ref =>
        .wrote connection.socket (queue.requests ref).entry.apiKey }

/-- An event of the queue. -/
def queueStep (event : RequestQueue.Event) (connection : Connection) : Option Connection :=
  (RequestQueue.step connection.requestQueue event).map fun queue => connection.withQueue queue

/-! ## Connecting and disconnecting -/

/-- `connect`, where `failed` says that `createSocket` throws. -/
def connect (failed : Bool) (connection : Connection) : Connection :=
  if connection.isConnected then connection
  else if failed then { connection with authenticatedAt := none }
  else { connection with authenticatedAt := none, socket := connection.socket + 1 }

/-- `disconnect` until it waits for the pending requests. -/
def disconnect (connection : Connection) : Connection :=
  { connection with
    authenticatedAt := none
    connectionStatus := .disconnecting
    disconnects := connection.disconnects + 1
    requestQueue := connection.requestQueue.waitForPendingRequests connection.disconnects }

/-- `disconnect` after it has waited. -/
def resumeDisconnect (waiter : Nat) (connection : Connection) : Connection :=
  { connection with
    connectionStatus := .disconnected
    requestQueue := (connection.requestQueue.resumeWaiter waiter).destroy }

/-- `rejectRequests`, and `disconnect` unless that throws. -/
def rejectAndDisconnect (error : KafkaError) (connection : Connection) : Connection :=
  match Command.exec (RequestQueue.rejectAll error) connection.requestQueue with
  | (.ok _, queue) => (connection.withQueue queue).disconnect
  | (.error _, queue) => connection.withQueue queue

/-- `onEnd`. -/
def onEnd (connection : Connection) : Connection :=
  if connection.authHandlers then { connection with authHandlers := false }.disconnect
  else if connection.isConnected then
    connection.rejectAndDisconnect
      { name := .kafkaJSConnectionClosedError, message := "Closed connection" }
  else connection.disconnect

/-- `onError`. -/
def onError (message : String) (connection : Connection) : Connection :=
  connection.rejectAndDisconnect
    { name := .kafkaJSConnectionError, message := "Connection error: " ++ message }

/-- `onTimeout`. -/
def onTimeout (connection : Connection) : Connection :=
  connection.rejectAndDisconnect
    { name := .kafkaJSConnectionError, message := "Connection timeout" }

/-! ## Sending -/

/-- `send` after the check of the authentication, until it waits for `createRequest`. -/
def startRequest (connection : Connection) : Connection × SendPhase :=
  if connection.isConnected then
    (connection.nextCorrelationId.2, .encoding connection.nextCorrelationId.1)
  else (connection, .failed notConnected)

/-- A call of `send` that passes the check at once. -/
def startSend (request : ProtocolRequest) (connection : Connection) : Connection :=
  { connection.startRequest.1 with
    sends := connection.sends ++ [⟨request, connection.startRequest.2, some connection.socket⟩] }

/-- `AUTHENTICATE`: the shared promise as it is, or a new exchange, which sends its handshake. -/
def sharedAuthenticate (hrtime : Int) (connection : Connection) : Connection :=
  match connection.authentication with
  | some _ => connection
  | none =>
      if connection.sasl ∧ ¬ connection.isAuthenticated hrtime then
        match connection.saslHandshakeVersion with
        | .error error =>
            { connection with authentication := some (.settled connection.socket (some error)) }
        | .ok apiVersion =>
            { connection with
              authentication := some (.running connection.history.length) }.startSend
                (saslHandshake apiVersion)
      else { connection with authentication := some (.settled connection.socket none) }

/-- A call of `send`. -/
def send (hrtime : Int) (request : ProtocolRequest) (connection : Connection) : Connection :=
  if ¬ connection.isAuthenticated hrtime ∧ isAuthenticatedRequest request.apiKey then
    let connection := connection.sharedAuthenticate hrtime
    { connection with sends := connection.sends ++ [⟨request, .authenticating, none⟩] }
  else connection.startSend request

/-- The sockets to which the exchange that began at `since` has written. -/
def exchangeSockets (since : Nat) (connection : Connection) : List Nat :=
  (connection.history.drop since).filterMap Mark.exchangeSocket

/-- The authenticator is done. Its exchange has written at least its handshake. -/
def saslDone (hrtime sessionLifetime : Int) (connection : Connection) : Option Connection :=
  match connection.authentication with
  | some (.running since) =>
      match connection.exchangeSockets since with
      | [] => none
      | first :: rest =>
          some { connection with
            authenticatedAt := some hrtime
            sessionLifetime
            authentication := some (.settled connection.socket none)
            history := connection.history ++
              if ∀ socket ∈ rest, socket = first then [.exchanged first] else [] }
  | _ => none

/-- The callback of the shared promise clears it, and those that wait for it are called. -/
def clearAuthentication (connection : Connection) : Option Connection :=
  match connection.authentication with
  | some (.settled on error) =>
      some { connection with
        authentication := none
        sends := connection.sends.map (Send.wake on error) }
  | _ => none

/-- A call of `send` goes on after the shared promise. -/
def resumeSend (id : Nat) (connection : Connection) : Option Connection :=
  match connection.sends[id]? with
  | some ⟨request, .authenticated, checkedOn⟩ =>
      some { connection.startRequest.1 with
        sends := connection.sends.set id ⟨request, connection.startRequest.2, checkedOn⟩ }
  | _ => none

/-- What a call of `send` pushes. -/
def pushedRequest (request : ProtocolRequest) (correlationId : Int)
    (sendError : Option KafkaError) : PushedRequest :=
  { entry := ⟨request.apiKey, request.apiName, request.apiVersion, correlationId⟩
    expectResponse := request.expectResponse
    requestTimeout := request.requestTimeout
    sendError }

/-- A call of `send` goes on after `createRequest`, which fails or gives the bytes of the request;
`sendError` is what writing them throws, if it throws. -/
def resumeEncoded (now : Int) (id : Nat) (encoded : Except KafkaError (Option KafkaError))
    (connection : Connection) : Option Connection :=
  match connection.sends[id]? with
  | some ⟨request, .encoding correlationId, checkedOn⟩ =>
      let leave := fun phase (connection : Connection) =>
        { connection with sends := connection.sends.set id ⟨request, phase, checkedOn⟩ }
      match encoded with
      | .error error => some (leave (.failed error) connection)
      | .ok sendError =>
          if connection.isConnected then
            (connection.queueStep (.push now (pushedRequest request correlationId sendError))).map
              (leave (.pushed connection.requestQueue.created))
          else some (leave (.failed notConnected) connection)
  | _ => none

/-! ## Runs -/

/-- What happens to a connection. `now` is the time of the queue, `hrtime` that of the
authentication. -/
inductive Event where
  | setVersions (saslHandshakeVersion : Except KafkaError Int)
  | connect (failed : Bool)
  | onConnect (socket : Nat)
  | onEnd (socket : Nat)
  | onError (socket : Nat) (message : String)
  | onTimeout (socket : Nat)
  | disconnect
  | resumeDisconnect (waiter : Nat)
  | authenticate (hrtime : Int)
  | send (hrtime : Int) (request : ProtocolRequest)
  | resumeSend (id : Nat)
  | resumeEncoded (now : Int) (id : Nat) (encoded : Except KafkaError (Option KafkaError))
  | sendAuthRequest
  | writeAuthRequest
  | rawResponse
  | saslDone (hrtime sessionLifetime : Int)
  | saslFailed (error : KafkaError)
  | clearAuthentication
  | response (now : Int) (response : Fulfillment)
  | maybeThrottle (now : Int) (clientSideThrottleTime : Option Int)
  | timeoutRequest (now : Int) (ref : Nat)
  | intervalEnd
  | checkTimer (now : Int)

/-- One event. The events of a socket come after its creation, in any order and also after another
socket has been created. A response goes to the exchange when its handlers are set. -/
def step (connection : Connection) : Event → Option Connection
  | .setVersions saslHandshakeVersion => some { connection with saslHandshakeVersion }
  | .connect failed => some (connection.connect failed)
  | .onConnect socket =>
      if 0 < socket ∧ socket ≤ connection.socket then
        { connection with connectionStatus := .connected }.queueStep .scheduleRequestTimeoutCheck
      else none
  | .onEnd socket =>
      if 0 < socket ∧ socket ≤ connection.socket then some connection.onEnd else none
  | .onError socket message =>
      if 0 < socket ∧ socket ≤ connection.socket then some (connection.onError message) else none
  | .onTimeout socket =>
      if 0 < socket ∧ socket ≤ connection.socket then some connection.onTimeout else none
  | .disconnect => some connection.disconnect
  | .resumeDisconnect waiter =>
      if waiter ∈ connection.requestQueue.ready then some (connection.resumeDisconnect waiter)
      else none
  | .authenticate hrtime => some (connection.sharedAuthenticate hrtime)
  | .send hrtime request => some (connection.send hrtime request)
  | .resumeSend id => connection.resumeSend id
  | .resumeEncoded now id encoded => connection.resumeEncoded now id encoded
  | .sendAuthRequest =>
      match connection.authentication with
      | some (.running _) =>
          some { connection with
            authHandlers := true
            authEncoding := connection.authEncoding + 1 }
      | _ => none
  | .writeAuthRequest =>
      if 0 < connection.authEncoding then
        let connection := { connection with authEncoding := connection.authEncoding - 1 }
        if connection.isConnected then
          some { connection with history := connection.history ++ [.wroteAuth connection.socket] }
        else some connection
      else none
  | .rawResponse =>
      if connection.authHandlers then some { connection with authHandlers := false } else none
  | .saslDone hrtime sessionLifetime => connection.saslDone hrtime sessionLifetime
  | .saslFailed error =>
      match connection.authentication with
      | some (.running _) =>
          some { connection with
            authentication := some (.settled connection.socket (some error)) }
      | _ => none
  | .clearAuthentication => connection.clearAuthentication
  | .response now response =>
      if connection.authHandlers then none
      else connection.queueStep (.fulfillRequest now response)
  | .maybeThrottle now clientSideThrottleTime =>
      connection.queueStep (.maybeThrottle now clientSideThrottleTime)
  | .timeoutRequest now ref => connection.queueStep (.timeoutRequest now ref)
  | .intervalEnd =>
      if connection.requestQueue.requestTimeoutInterval ∧ ¬ connection.isConnected then
        connection.queueStep .destroy
      else none
  | .checkTimer now => connection.queueStep (.checkTimer now)

end Connection

end KafkaJs.Network
