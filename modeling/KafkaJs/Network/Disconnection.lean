import KafkaJs.Network.Connection

/-!
# Requests and disconnects

`disconnect` waits until the request queue is empty and then takes the connection down. Between the
moment at which the queue becomes empty and the one at which `disconnect` goes on, the status is
`DISCONNECTING`, which counts as connected, so a call of `send` that comes back from `createRequest`
in between pushes its request. Nothing settles this request any more: the timers of the queue are
cleared, and the end of the socket rejects the requests of a connected connection only.

`settled_of_undisturbed` says that the queue of a disconnected connection is empty in every run in
which this does not happen, and `unsettled_latePush` is a run in which it does.
-/

namespace KafkaJs.Network

open KafkaJs.Data KafkaJs.Execution KafkaJs.Protocol

namespace Connection

/-- No request is inflight or pending when the connection is disconnected. -/
def Settled (connection : Connection) : Prop :=
  connection.connectionStatus = .disconnected →
    connection.requestQueue.inflight.entries = [] ∧ connection.requestQueue.pending = []

/-- A call of `send` does not push while a disconnect that has waited for the queue is about to go
on, except for a request without response that leaves the queue as it is. -/
def undisturbed (connection : Connection) : Event → Bool
  | .resumeEncoded now id (.ok sendError) =>
      decide (∀ send ∈ connection.sends[id]?, connection.isConnected = true →
        connection.requestQueue.Undisturbed now send.request.expectResponse sendError)
  | _ => true

/-- What keeps `Settled`: also while a disconnect is about to go on, the queue is empty. -/
def Quiet (connection : Connection) : Prop :=
  connection.requestQueue.Drained (connection.connectionStatus = .disconnected)

variable {connection next : Connection}

/-- Quiet depends on the queue and the status only. -/
theorem Quiet.congr (h : Quiet connection) (hqueue : next.requestQueue = connection.requestQueue)
    (hstatus : next.connectionStatus = connection.connectionStatus) : Quiet next := by
  rw [Quiet, hqueue, hstatus]
  exact h

/-! ## Parts that leave the queue and the status as they are -/

/-- Connecting leaves the queue and the status alone. -/
theorem connect_requestQueue (failed : Bool) :
    (connection.connect failed).requestQueue = connection.requestQueue ∧
      (connection.connect failed).connectionStatus = connection.connectionStatus := by
  unfold connect
  split
  · exact ⟨rfl, rfl⟩
  · split <;> exact ⟨rfl, rfl⟩

/-- Starting a request leaves the queue and the status alone. -/
theorem startRequest_requestQueue :
    connection.startRequest.1.requestQueue = connection.requestQueue ∧
      connection.startRequest.1.connectionStatus = connection.connectionStatus := by
  unfold startRequest
  split <;> exact ⟨rfl, rfl⟩

/-- Authenticating leaves the queue and the status alone. -/
theorem sharedAuthenticate_requestQueue (hrtime : Int) :
    (connection.sharedAuthenticate hrtime).requestQueue = connection.requestQueue ∧
      (connection.sharedAuthenticate hrtime).connectionStatus = connection.connectionStatus := by
  unfold sharedAuthenticate
  split
  · exact ⟨rfl, rfl⟩
  · split
    · split
      · exact ⟨rfl, rfl⟩
      · exact startRequest_requestQueue
    · exact ⟨rfl, rfl⟩

/-- A call of `send` leaves the queue and the status alone until the request is pushed. -/
theorem send_requestQueue (hrtime : Int) (request : ProtocolRequest) :
    (connection.send hrtime request).requestQueue = connection.requestQueue ∧
      (connection.send hrtime request).connectionStatus = connection.connectionStatus := by
  unfold send
  split
  · exact sharedAuthenticate_requestQueue hrtime
  · exact startRequest_requestQueue

/-! ## Parts that change them -/

/-- An event of the queue that is not a push. -/
theorem Quiet.queueStep {event : RequestQueue.Event} (h : Quiet connection)
    (hstep : connection.queueStep event = some next)
    (hpush : ∀ now pushedRequest, event ≠ .push now pushedRequest) : Quiet next := by
  obtain ⟨queue, hqueue, rfl⟩ := Option.map_eq_some_iff.mp hstep
  exact (RequestQueue.moves_step hpush hqueue).drained h

/-- Disconnecting keeps the connection quiet. -/
theorem Quiet.disconnect (h : Quiet connection) : Quiet connection.disconnect :=
  (RequestQueue.Move.wait _).drained (h.mono nofun)

/-- Once the requests are settled, the connection is disconnected. -/
theorem Quiet.resumeDisconnect (h : Quiet connection) {waiter : Nat}
    (hready : waiter ∈ connection.requestQueue.ready) :
    Quiet (connection.resumeDisconnect waiter) := by
  have hempty : connection.requestQueue.isEmpty = true :=
    h (Or.inr (List.ne_nil_of_mem hready))
  exact fun _ => hempty

/-- An error rejects all requests and keeps the connection quiet. -/
theorem Quiet.rejectAndDisconnect (h : Quiet connection) (error : KafkaError) :
    Quiet (connection.rejectAndDisconnect error) := by
  have hdrained := ((RequestQueue.isMoves_rejectAll error).perform).drained h
  rw [RequestQueue.perform] at hdrained
  unfold Connection.rejectAndDisconnect
  rcases hexec : Command.exec (RequestQueue.rejectAll error) connection.requestQueue with
    ⟨thrown | value, queue⟩
  · rw [hexec] at hdrained
    exact hdrained
  · rw [hexec] at hdrained
    have hrejected : Quiet (connection.withQueue queue) := hdrained
    exact hrejected.disconnect

/-- The end of the socket keeps the connection quiet. -/
theorem Quiet.onEnd (h : Quiet connection) : Quiet connection.onEnd := by
  unfold Connection.onEnd
  split
  · have hreset : Quiet { connection with authHandlers := false } := h
    exact hreset.disconnect
  · split
    · exact h.rejectAndDisconnect _
    · exact h.disconnect

/-- A call of `send` comes back from `createRequest`. -/
theorem Quiet.resumeEncoded (h : Quiet connection) {now : Int} {id : Nat}
    {encoded : Except KafkaError (Option KafkaError)}
    (hok : connection.undisturbed (.resumeEncoded now id encoded) = true)
    (hstep : connection.resumeEncoded now id encoded = some next) : Quiet next := by
  unfold Connection.resumeEncoded at hstep
  split at hstep
  · next request correlationId checkedOn hsend =>
      cases encoded with
      | error error =>
          cases hstep
          exact h
      | ok sendError =>
          dsimp only at hstep
          split at hstep
          · next hconnected =>
              obtain ⟨pushed, hpush, rfl⟩ := Option.map_eq_some_iff.mp hstep
              obtain ⟨queue, hqueue, rfl⟩ := Option.map_eq_some_iff.mp hpush
              have hundisturbed := of_decide_eq_true hok _ hsend hconnected
              have hdown : ¬ connection.connectionStatus = .disconnected := by
                intro hdisconnected
                rw [isConnected, hdisconnected] at hconnected
                cases hconnected
              exact RequestQueue.drained_push h hdown hundisturbed hqueue
          · cases hstep
            exact h
  · cases hstep

/-- Every undisturbed event keeps the connection quiet. -/
theorem Quiet.step {event : Event} (h : Quiet connection)
    (hok : connection.undisturbed event = true)
    (hstep : connection.step event = some next) : Quiet next := by
  cases event with
  | setVersions version =>
      cases hstep
      exact h
  | connect failed =>
      cases hstep
      exact h.congr (connect_requestQueue failed).1 (connect_requestQueue failed).2
  | onConnect socket =>
      obtain ⟨-, hnext⟩ := Option.ite_none_right_eq_some.mp hstep
      have hconnected : Quiet { connection with connectionStatus := .connected } := h.mono nofun
      exact hconnected.queueStep hnext fun _ _ h => nomatch h
  | onEnd socket =>
      obtain ⟨-, hnext⟩ := Option.ite_none_right_eq_some.mp hstep
      cases hnext
      exact h.onEnd
  | onError socket message | onTimeout socket =>
      obtain ⟨-, hnext⟩ := Option.ite_none_right_eq_some.mp hstep
      cases hnext
      exact h.rejectAndDisconnect _
  | disconnect =>
      cases hstep
      exact h.disconnect
  | resumeDisconnect waiter =>
      obtain ⟨hready, hnext⟩ := Option.ite_none_right_eq_some.mp hstep
      cases hnext
      exact h.resumeDisconnect hready
  | authenticate hrtime =>
      cases hstep
      exact h.congr (sharedAuthenticate_requestQueue hrtime).1
        (sharedAuthenticate_requestQueue hrtime).2
  | send hrtime request =>
      cases hstep
      exact h.congr (send_requestQueue hrtime request).1 (send_requestQueue hrtime request).2
  | resumeSend id =>
      rw [Connection.step, Connection.resumeSend] at hstep
      split at hstep <;> cases hstep
      exact h.congr startRequest_requestQueue.1 startRequest_requestQueue.2
  | resumeEncoded now id encoded => exact h.resumeEncoded hok hstep
  | sendAuthRequest =>
      rw [Connection.step] at hstep
      split at hstep <;> cases hstep
      exact h
  | writeAuthRequest =>
      obtain ⟨-, hnext⟩ := Option.ite_none_right_eq_some.mp hstep
      dsimp only at hnext
      split at hnext <;> cases hnext <;> exact h
  | rawResponse =>
      obtain ⟨-, hnext⟩ := Option.ite_none_right_eq_some.mp hstep
      cases hnext
      exact h
  | saslDone hrtime sessionLifetime =>
      rw [Connection.step, Connection.saslDone] at hstep
      split at hstep
      · split at hstep <;> cases hstep
        exact h
      · cases hstep
  | saslFailed error =>
      rw [Connection.step] at hstep
      split at hstep <;> cases hstep
      exact h
  | clearAuthentication =>
      rw [Connection.step, Connection.clearAuthentication] at hstep
      split at hstep <;> cases hstep
      exact h
  | response now response =>
      obtain ⟨-, hnext⟩ := Option.ite_none_left_eq_some.mp hstep
      exact h.queueStep hnext fun _ _ h => nomatch h
  | maybeThrottle now time => exact h.queueStep hstep fun _ _ h => nomatch h
  | timeoutRequest now ref => exact h.queueStep hstep fun _ _ h => nomatch h
  | intervalEnd =>
      obtain ⟨-, hnext⟩ := Option.ite_none_right_eq_some.mp hstep
      exact h.queueStep hnext fun _ _ h => nomatch h
  | checkTimer now => exact h.queueStep hstep fun _ _ h => nomatch h

/-- In every run in which no call of `send` pushes between the end of the wait of a disconnect and
its continuation, nothing is left in the queue of a disconnected connection. -/
theorem settled_of_undisturbed {options : ConnectionOptions} {events : List Event}
    (hundisturbed : Meets step (fun connection event => connection.undisturbed event = true)
      (new options) events)
    (hrun : run step (new options) events = some connection) : Settled connection := by
  have hquiet : Quiet connection := invariant_of_meets
    (fun _ _ _ h hok hstep => h.step hok hstep) (fun _ => rfl) hundisturbed hrun
  intro hdisconnected
  obtain ⟨hpending, hinflight⟩ := RequestQueue.isEmpty_iff.mp (hquiet (Or.inl hdisconnected))
  exact ⟨hinflight, hpending⟩

/-- A request for the metadata of a cluster. -/
def metadataRequest : ProtocolRequest :=
  { apiKey := 3, apiName := "Metadata", apiVersion := 6, expectResponse := true,
    requestTimeout := none }

/-- A connection without authentication and without a limit on inflight requests. -/
def plain : Connection := new ⟨false, 10000, none, 30000, true⟩

/-- A call of `send` up to `createRequest`. -/
def startEvents : List Event :=
  [.connect false, .onConnect 1, .send 0 metadataRequest, .clearAuthentication, .resumeSend 0]

/-- The request is pushed before `disconnect` is called, which waits for the response. -/
def earlyPush : List Event :=
  startEvents ++ [.resumeEncoded 1 0 (.ok none), .disconnect, .response 2 ⟨0, [], 4⟩,
    .resumeDisconnect 0]

/-- A push before the wait of `disconnect` ends is settled. -/
theorem settled_earlyPush : ∃ connection, run step plain earlyPush = some connection ∧
    connection.connectionStatus = .disconnected ∧ Settled connection := by
  have hstatus : (run step plain earlyPush).map Connection.connectionStatus =
      some .disconnected := by decide
  obtain ⟨connection, hrun, hdisconnected⟩ := Option.map_eq_some_iff.mp hstatus
  exact ⟨connection, hrun, hdisconnected, settled_of_undisturbed (by decide) hrun⟩

/-- The request is pushed when `disconnect` has found the queue empty and has not gone on. -/
def latePush : List Event :=
  startEvents ++ [.disconnect, .resumeEncoded 1 0 (.ok none), .resumeDisconnect 0]

/-- The request stays inflight on the disconnected connection. -/
theorem unsettled_latePush : ∃ connection, run step plain latePush = some connection ∧
    ¬ Settled connection := by
  have hfields : (run step plain latePush).map (fun connection =>
      (connection.connectionStatus, connection.requestQueue.inflight.entries)) =
        some (.disconnected, [(0, 0)]) := by decide
  obtain ⟨connection, hrun, heq⟩ := Option.map_eq_some_iff.mp hfields
  rw [Prod.mk.injEq] at heq
  refine ⟨connection, hrun, fun hsettled => ?_⟩
  have hempty := (hsettled heq.1).1
  rw [heq.2] at hempty
  cases hempty

end Connection

end KafkaJs.Network
