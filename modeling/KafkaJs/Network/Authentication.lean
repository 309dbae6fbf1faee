import KafkaJs.Network.Connection

/-!
# Nothing is sent unauthenticated

`send` checks the authentication of the connection before it encodes a request and writes the
request after that, perhaps only when the queue has room for it. What is written goes to the socket
that the connection has then, and `connect` gives it a new one.

`authorized_of_guarded` says that every request other than those of the authentication itself comes
after an exchange on the same socket, in every run in which the socket is not exchanged between the
check of a call and its push, between the start of an exchange and its end, or while such requests
are pending. In `reconnectedSend` the first of these happens.
-/

namespace KafkaJs.Network

open KafkaJs.Data KafkaJs.Execution KafkaJs.Protocol

/-- Every request that needs authentication was written after an exchange had completed on the same
socket. -/
def Authorized (history : List Mark) : Prop :=
  ∀ before socket apiKey after, history = before ++ .wrote socket apiKey :: after →
    isAuthenticatedRequest apiKey = true → .exchanged socket ∈ before

/-- Marks that are authorized by the history may be added to it. -/
theorem authorized_append {history marks : List Mark} (h : Authorized history)
    (hmarks : ∀ socket apiKey, .wrote socket apiKey ∈ marks →
      isAuthenticatedRequest apiKey = true → .exchanged socket ∈ history) :
    Authorized (history ++ marks) := by
  intro before socket apiKey after heq hrequest
  rcases List.append_eq_append_iff.mp heq with ⟨middle, rfl, hmiddle⟩ | ⟨middle, hhistory, hmiddle⟩
  · have hmem : .wrote socket apiKey ∈ marks := by
      rw [hmiddle]
      exact List.mem_append_right _ List.mem_cons_self
    exact List.mem_append_left _ (hmarks socket apiKey hmem hrequest)
  · cases middle with
    | nil =>
        rw [List.append_nil] at hhistory
        rw [List.nil_append] at hmiddle
        rw [← hhistory]
        exact hmarks socket apiKey (hmiddle ▸ List.mem_cons_self) hrequest
    | cons mark middle =>
        rw [List.cons_append, List.cons.injEq] at hmiddle
        exact h before socket apiKey middle (by rw [hhistory, hmiddle.1]) hrequest

/-- The call has passed the check and has not pushed its request. -/
def SendPhase.passed : SendPhase → Bool
  | .authenticated | .encoding _ => true
  | _ => false

/-- A call that has passed the check has done so on a socket on which an exchange had completed. -/
def Send.Checked (history : List Mark) (send : Send) : Prop :=
  isAuthenticatedRequest send.request.apiKey = true → send.phase.passed = true →
    ∃ socket, send.checkedOn = some socket ∧ .exchanged socket ∈ history

/-- What was checked stays checked when the history grows. -/
theorem Send.Checked.append {history : List Mark} {send : Send} (h : send.Checked history)
    (marks : List Mark) : send.Checked (history ++ marks) := by
  intro hrequest hpassed
  obtain ⟨socket, hchecked, hexchanged⟩ := h hrequest hpassed
  exact ⟨socket, hchecked, List.mem_append_left _ hexchanged⟩

namespace Connection

/-- The socket of the connection stays the same while it matters: a new one is made when no request
that needs authentication is pending, a call pushes such a request on the socket on which it passed
the check or when the connection is authenticated again, and an exchange completes on the socket to
which it has written. -/
def guarded (connection : Connection) : Event → Bool
  | .connect failed =>
      decide (connection.isConnected = false → failed = false →
        ∀ ref ∈ connection.requestQueue.pending,
          isAuthenticatedRequest (connection.requestQueue.requests ref).entry.apiKey = false)
  | .resumeEncoded _ id (.ok _) =>
      decide (∀ send ∈ connection.sends[id]?, isAuthenticatedRequest send.request.apiKey = true →
        connection.isConnected = true →
          send.checkedOn = some connection.socket ∨ connection.authenticatedAt.isSome = true)
  | .saslDone _ _ =>
      match connection.authentication with
      | some (.running since) =>
          decide (∀ socket ∈ connection.exchangeSockets since, socket = connection.socket)
      | _ => true
  | _ => true

/-- An exchange has completed on the socket of an authenticated connection, of a connection with
pending requests that need authentication, and of every call at its check. -/
structure Secure (connection : Connection) : Prop where
  sasl : connection.sasl = true
  authorized : Authorized connection.history
  authenticated : connection.authenticatedAt.isSome = true →
    .exchanged connection.socket ∈ connection.history
  pending : ∀ ref ∈ connection.requestQueue.pending,
    isAuthenticatedRequest (connection.requestQueue.requests ref).entry.apiKey = true →
      .exchanged connection.socket ∈ connection.history
  created : ∀ ref ∈ connection.requestQueue.pending, ref < connection.requestQueue.created
  sends : ∀ send ∈ connection.sends, send.Checked connection.history
  settled : ∀ socket, connection.authentication = some (.settled socket none) →
    .exchanged socket ∈ connection.history

variable {connection next : Connection}

/-! ## The queue -/

/-- The queue sends and keeps requests that are allowed on the socket. -/
theorem Secure.withQueue {allowed : Nat → Prop} {base queue : RequestQueue}
    (h : Secure connection) (hsends : RequestQueue.Sends allowed base queue)
    (hwritten : base.written = connection.requestQueue.written)
    (hallowed : ∀ ref, allowed ref → ref < base.created ∧
      (isAuthenticatedRequest (base.requests ref).entry.apiKey = true →
        .exchanged connection.socket ∈ connection.history)) :
    Secure (connection.withQueue queue) := by
  obtain ⟨refs, hqueue, hrefs⟩ := hsends.written
  have hhistory : (connection.withQueue queue).history = connection.history ++
      refs.map fun ref => .wrote connection.socket (queue.requests ref).entry.apiKey := by
    show connection.history ++ (queue.written.drop _).map _ = _
    rw [hqueue, ← hwritten, List.drop_left]
  refine ⟨h.sasl, ?_, ?_, ?_, ?_, ?_, ?_⟩
  · rw [hhistory]
    refine authorized_append h.authorized fun socket apiKey hmem hrequest => ?_
    obtain ⟨ref, href, heq⟩ := List.mem_map.mp hmem
    cases heq
    rw [hsends.entries ref] at hrequest
    exact (hallowed ref (hrefs ref href)).2 hrequest
  · intro hauthenticated
    rw [hhistory]
    exact List.mem_append_left _ (h.authenticated hauthenticated)
  · intro ref href hrequest
    rw [hhistory]
    refine List.mem_append_left _ ((hallowed ref (hsends.pending ref href)).2 ?_)
    rw [← hsends.entries ref]
    exact hrequest
  · intro ref href
    show ref < queue.created
    rw [hsends.created]
    exact (hallowed ref (hsends.pending ref href)).1
  · intro send hsend
    rw [hhistory]
    exact (h.sends send hsend).append _
  · intro socket hsettled
    rw [hhistory]
    exact List.mem_append_left _ (h.settled socket hsettled)

/-- Moves of the request queue keep the connection secure. -/
theorem Secure.moves {queue : RequestQueue} (h : Secure connection)
    (hmoves : RequestQueue.Moves connection.requestQueue queue) :
    Secure (connection.withQueue queue) := by
  have hsends := hmoves.sends
    (RequestQueue.Sends.refl (fun (ref : Nat) (hmem : ref ∈ connection.requestQueue.pending) => hmem))
  exact h.withQueue hsends rfl fun ref href => ⟨h.created ref href, h.pending ref href⟩

/-- Every event of the request queue but a push keeps the connection secure. -/
theorem Secure.queueStep {event : RequestQueue.Event} (h : Secure connection)
    (hstep : connection.queueStep event = some next)
    (hpush : ∀ now pushedRequest, event ≠ .push now pushedRequest) : Secure next := by
  obtain ⟨queue, hqueue, rfl⟩ := Option.map_eq_some_iff.mp hstep
  exact h.moves (RequestQueue.moves_step hpush hqueue)

/-- A push of a request that is allowed on the socket. -/
theorem Secure.push {now : Int} {pushedRequest : PushedRequest} (h : Secure connection)
    (hrequest : isAuthenticatedRequest pushedRequest.entry.apiKey = true →
      .exchanged connection.socket ∈ connection.history)
    (hstep : connection.queueStep (.push now pushedRequest) = some next) : Secure next := by
  obtain ⟨queue, hqueue, rfl⟩ := Option.map_eq_some_iff.mp hstep
  refine h.withQueue (RequestQueue.sends_push hqueue) rfl ?_
  rintro ref (hpending | rfl)
  · have hlt := h.created ref hpending
    refine ⟨Nat.lt_succ_of_lt hlt, ?_⟩
    show isAuthenticatedRequest (Function.update connection.requestQueue.requests _ _
      ref).entry.apiKey = true → _
    rw [Function.update_of_ne (Nat.ne_of_lt hlt)]
    exact h.pending ref hpending
  · refine ⟨Nat.lt_succ_self _, ?_⟩
    show isAuthenticatedRequest (Function.update connection.requestQueue.requests _ _
      connection.requestQueue.created).entry.apiKey = true → _
    rw [Function.update_self]
    exact hrequest

/-! ## Connecting and disconnecting -/

/-- Connecting where nothing is left over keeps the connection secure. -/
theorem Secure.connect {failed : Bool} (h : Secure connection)
    (hok : connection.guarded (.connect failed) = true) : Secure (connection.connect failed) := by
  unfold Connection.connect
  split
  · exact h
  · next hdown =>
      split
      · exact ⟨h.sasl, h.authorized, nofun, h.pending, h.created, h.sends, h.settled⟩
      · next hcreated =>
          have hnone := of_decide_eq_true hok (Bool.eq_false_of_not_eq_true hdown)
            (Bool.eq_false_of_not_eq_true hcreated)
          refine ⟨h.sasl, h.authorized, nofun, ?_, h.created, h.sends, h.settled⟩
          intro ref href hrequest
          rw [hnone ref href] at hrequest
          cases hrequest

/-- Disconnecting keeps the connection secure. -/
theorem Secure.disconnect (h : Secure connection) : Secure connection.disconnect := by
  obtain ⟨hpending, hrequests, hcreated⟩ :=
    @RequestQueue.waitForPendingRequests_fields connection.requestQueue connection.disconnects
  refine ⟨h.sasl, h.authorized, nofun, ?_, ?_, h.sends, h.settled⟩
  · show ∀ ref ∈ (connection.requestQueue.waitForPendingRequests _).pending, _
    rw [hpending]
    intro ref href hrequest
    refine h.pending ref href ?_
    rw [← hrequests]
    exact hrequest
  · show ∀ ref ∈ (connection.requestQueue.waitForPendingRequests _).pending,
      ref < (connection.requestQueue.waitForPendingRequests _).created
    rw [hpending, hcreated]
    exact h.created

/-- The rest of a disconnect keeps the connection secure. -/
theorem Secure.resumeDisconnect (h : Secure connection) (waiter : Nat) :
    Secure (connection.resumeDisconnect waiter) :=
  ⟨h.sasl, h.authorized, h.authenticated, h.pending, h.created, h.sends, h.settled⟩

/-- An error keeps the connection secure. -/
theorem Secure.rejectAndDisconnect (h : Secure connection) (error : KafkaError) :
    Secure (connection.rejectAndDisconnect error) := by
  have hmoves := (@RequestQueue.isMoves_rejectAll connection.requestQueue error).perform
  rw [RequestQueue.perform] at hmoves
  unfold Connection.rejectAndDisconnect
  rcases hexec : Command.exec (RequestQueue.rejectAll error) connection.requestQueue with
    ⟨thrown | value, queue⟩
  · rw [hexec] at hmoves
    exact h.moves hmoves
  · rw [hexec] at hmoves
    exact (h.moves hmoves).disconnect

/-- The end of the socket keeps the connection secure. -/
theorem Secure.onEnd (h : Secure connection) : Secure connection.onEnd := by
  unfold Connection.onEnd
  split
  · have hreset : Secure { connection with authHandlers := false } :=
      ⟨h.sasl, h.authorized, h.authenticated, h.pending, h.created, h.sends, h.settled⟩
    exact hreset.disconnect
  · split
    · exact h.rejectAndDisconnect _
    · exact h.disconnect

/-! ## Sending -/

/-- Other calls of `send`, which are checked. -/
theorem Secure.withSends (h : Secure connection) {sends : List Send}
    (hsends : ∀ send ∈ sends, send.Checked connection.history) :
    Secure { connection with sends } :=
  ⟨h.sasl, h.authorized, h.authenticated, h.pending, h.created, hsends, h.settled⟩

/-- Another send that is checked. -/
theorem Secure.checked_append (h : Secure connection) {send : Send}
    (hsend : send.Checked connection.history) :
    ∀ other ∈ connection.sends ++ [send], other.Checked connection.history := by
  intro other hother
  rcases List.mem_append.mp hother with hold | hnew
  · exact h.sends other hold
  · exact List.mem_singleton.mp hnew ▸ hsend

/-- A send that goes on and is checked. -/
theorem Secure.checked_set (h : Secure connection) {id : Nat} {send : Send}
    (hsend : send.Checked connection.history) :
    ∀ other ∈ connection.sends.set id send, other.Checked connection.history := by
  intro other hother
  rcases List.mem_or_eq_of_mem_set hother with hold | rfl
  · exact h.sends other hold
  · exact hsend

/-- Starting a request writes nothing. -/
theorem startRequest_history : connection.startRequest.1.history = connection.history := by
  unfold startRequest
  split <;> rfl

/-- Starting a request keeps the connection secure. -/
theorem Secure.startRequest (h : Secure connection) : Secure connection.startRequest.1 := by
  unfold Connection.startRequest
  split
  · exact ⟨h.sasl, h.authorized, h.authenticated, h.pending, h.created, h.sends, h.settled⟩
  · exact h

/-- A call that passes the check at once is one of an authenticated connection, or needs no
authentication. -/
theorem Secure.startSend (h : Secure connection) {request : ProtocolRequest}
    (hrequest : isAuthenticatedRequest request.apiKey = true →
      connection.authenticatedAt.isSome = true) : Secure (connection.startSend request) := by
  refine h.startRequest.withSends ?_
  rw [startRequest_history]
  refine h.checked_append fun hauthenticated _ => ?_
  exact ⟨connection.socket, rfl, h.authenticated (hrequest hauthenticated)⟩

/-- An authenticated connection has a time of authentication. -/
theorem authenticatedAt_of_isAuthenticated {hrtime : Int}
    (h : connection.isAuthenticated hrtime = true) : connection.authenticatedAt.isSome = true :=
  (of_decide_eq_true h).1

/-- The shared promise is settled without an exchange only for an authenticated connection. -/
theorem Secure.sharedAuthenticate (h : Secure connection) (hrtime : Int) :
    Secure (connection.sharedAuthenticate hrtime) := by
  unfold Connection.sharedAuthenticate
  split
  · exact h
  · split
    · split
      · exact ⟨h.sasl, h.authorized, h.authenticated, h.pending, h.created, h.sends, nofun⟩
      · have hrunning : Secure { connection with
            authentication := some (.running connection.history.length) } :=
          ⟨h.sasl, h.authorized, h.authenticated, h.pending, h.created, h.sends, nofun⟩
        exact hrunning.startSend nofun
    · next hdone =>
        refine ⟨h.sasl, h.authorized, h.authenticated, h.pending, h.created, h.sends, ?_⟩
        intro socket hsettled
        cases hsettled
        have hisAuthenticated : connection.isAuthenticated hrtime = true := by
          by_contra hnot
          exact hdone ⟨h.sasl, hnot⟩
        exact h.authenticated (authenticatedAt_of_isAuthenticated hisAuthenticated)

/-- A call of `send` keeps the connection secure. -/
theorem Secure.send (h : Secure connection) (hrtime : Int) (request : ProtocolRequest) :
    Secure (connection.send hrtime request) := by
  unfold Connection.send
  split
  · have hshared := h.sharedAuthenticate hrtime
    exact hshared.withSends (hshared.checked_append nofun)
  · next hpasses =>
      refine h.startSend fun hrequest => ?_
      have hisAuthenticated : connection.isAuthenticated hrtime = true := by
        by_contra hnot
        exact hpasses ⟨hnot, hrequest⟩
      exact authenticatedAt_of_isAuthenticated hisAuthenticated

/-- A call of `send` that goes on writes only after its check. -/
theorem Secure.resumeSend (h : Secure connection) {id : Nat}
    (hstep : connection.resumeSend id = some next) : Secure next := by
  unfold Connection.resumeSend at hstep
  split at hstep
  · next request checkedOn hsend =>
      cases hstep
      have hchecked := h.sends _ (List.mem_of_getElem? hsend)
      refine h.startRequest.withSends ?_
      rw [startRequest_history]
      exact h.checked_set fun hrequest _ => hchecked hrequest rfl
  · cases hstep

/-- A call pushes its request on the socket on which it has passed the check, or on that of a
connection that is authenticated again. -/
theorem Secure.resumeEncoded (h : Secure connection) {now : Int} {id : Nat}
    {encoded : Except KafkaError (Option KafkaError)}
    (hok : connection.guarded (.resumeEncoded now id encoded) = true)
    (hstep : connection.resumeEncoded now id encoded = some next) : Secure next := by
  unfold Connection.resumeEncoded at hstep
  split at hstep
  · next request correlationId checkedOn hsend =>
      have hchecked := h.sends _ (List.mem_of_getElem? hsend)
      cases encoded with
      | error error =>
          cases hstep
          exact h.withSends (h.checked_set fun _ => nofun)
      | ok sendError =>
          dsimp only at hstep
          split at hstep
          · next hconnected =>
              obtain ⟨pushed, hpush, rfl⟩ := Option.map_eq_some_iff.mp hstep
              have hexchanged : isAuthenticatedRequest request.apiKey = true →
                  .exchanged connection.socket ∈ connection.history := by
                intro hrequest
                rcases of_decide_eq_true hok _ hsend hrequest hconnected with hsocket | hagain
                · obtain ⟨socket, hsome, hmem⟩ := hchecked hrequest rfl
                  rw [hsocket] at hsome
                  cases hsome
                  exact hmem
                · exact h.authenticated hagain
              have hpushed := h.push hexchanged hpush
              exact hpushed.withSends (hpushed.checked_set fun _ => nofun)
          · cases hstep
            exact h.withSends (h.checked_set fun _ => nofun)
  · cases hstep

/-- A send that is woken after the exchange is checked. -/
theorem checked_wake {history : List Mark} {on : Nat} {error : Option KafkaError} {send : Send}
    (h : send.Checked history) (hon : error = none → .exchanged on ∈ history) :
    (send.wake on error).Checked history := by
  unfold Send.wake
  split
  · intro _ _
    exact ⟨on, rfl, hon rfl⟩
  · exact fun _ => nofun
  · exact h

/-- Authenticating again keeps the connection secure. -/
theorem Secure.clearAuthentication (h : Secure connection)
    (hstep : connection.clearAuthentication = some next) : Secure next := by
  unfold Connection.clearAuthentication at hstep
  split at hstep
  · next on error hsettled =>
      cases hstep
      have hsends : ∀ send ∈ connection.sends.map (Send.wake on error),
          send.Checked connection.history := by
        intro send hsend
        obtain ⟨waiting, hwaiting, rfl⟩ := List.mem_map.mp hsend
        refine checked_wake (h.sends waiting hwaiting) fun herror => h.settled on ?_
        rw [hsettled, herror]
      exact ⟨h.sasl, h.authorized, h.authenticated, h.pending, h.created, hsends, nofun⟩
  · cases hstep

/-! ## The exchange -/

/-- More marks that are not requests. -/
theorem Secure.marks (h : Secure connection) {marks : List Mark}
    (hmarks : ∀ socket apiKey, .wrote socket apiKey ∉ marks) :
    Secure { connection with history := connection.history ++ marks } :=
  ⟨h.sasl, authorized_append h.authorized fun socket apiKey hmem => absurd hmem (hmarks socket apiKey),
    fun hauthenticated => List.mem_append_left _ (h.authenticated hauthenticated),
    fun ref href hrequest => List.mem_append_left _ (h.pending ref href hrequest), h.created,
    fun send hsend => (h.sends send hsend).append marks,
    fun socket hsettled => List.mem_append_left _ (h.settled socket hsettled)⟩

/-- An exchange completes on the socket of the connection. -/
theorem Secure.saslDone (h : Secure connection) {hrtime sessionLifetime : Int}
    (hok : connection.guarded (.saslDone hrtime sessionLifetime) = true)
    (hstep : connection.saslDone hrtime sessionLifetime = some next) : Secure next := by
  unfold Connection.saslDone at hstep
  split at hstep
  · next since hrunning =>
      split at hstep
      · cases hstep
      · next first rest hsockets =>
          cases hstep
          unfold guarded at hok
          rw [hrunning] at hok
          have hsocket := of_decide_eq_true hok
          rw [hsockets] at hsocket
          have hfirst : first = connection.socket := hsocket first List.mem_cons_self
          have hrest : ∀ socket ∈ rest, socket = first := fun socket hmem =>
            (hsocket socket (List.mem_cons_of_mem _ hmem)).trans hfirst.symm
          rw [if_pos hrest, hfirst]
          have hmarked : Secure { connection with
              history := connection.history ++ [.exchanged connection.socket] } := h.marks nofun
          have hexchanged : .exchanged connection.socket ∈
              connection.history ++ [.exchanged connection.socket] :=
            List.mem_append_right _ (List.mem_singleton_self _)
          refine ⟨h.sasl, hmarked.authorized, fun _ => hexchanged, hmarked.pending, h.created,
            hmarked.sends, ?_⟩
          intro socket hsettled
          cases hsettled
          exact hexchanged
  · cases hstep

/-- Every guarded event keeps the connection secure. -/
theorem Secure.step {event : Event} (h : Secure connection)
    (hok : connection.guarded event = true) (hstep : connection.step event = some next) :
    Secure next := by
  cases event with
  | setVersions version =>
      cases hstep
      exact ⟨h.sasl, h.authorized, h.authenticated, h.pending, h.created, h.sends, h.settled⟩
  | connect failed =>
      cases hstep
      exact h.connect hok
  | onConnect socket =>
      obtain ⟨-, hnext⟩ := Option.ite_none_right_eq_some.mp hstep
      have hconnected : Secure { connection with connectionStatus := .connected } :=
        ⟨h.sasl, h.authorized, h.authenticated, h.pending, h.created, h.sends, h.settled⟩
      exact hconnected.queueStep hnext fun _ _ h => nomatch h
  | onEnd socket =>
      obtain ⟨-, hnext⟩ := Option.ite_none_right_eq_some.mp hstep
      cases hnext
      exact h.onEnd
  | onError socket message | onTimeout socket =>
      obtain ⟨-, hnext⟩ := Option.ite_none_right_eq_some.mp hstep
      cases hnext
      exact h.rejectAndDisconnect _
  | disconnect =>
      cases hstep
      exact h.disconnect
  | resumeDisconnect waiter =>
      obtain ⟨-, hnext⟩ := Option.ite_none_right_eq_some.mp hstep
      cases hnext
      exact h.resumeDisconnect waiter
  | authenticate hrtime =>
      cases hstep
      exact h.sharedAuthenticate hrtime
  | send hrtime request =>
      cases hstep
      exact h.send hrtime request
  | resumeSend id => exact h.resumeSend hstep
  | resumeEncoded now id encoded => exact h.resumeEncoded hok hstep
  | sendAuthRequest =>
      rw [Connection.step] at hstep
      split at hstep <;> cases hstep
      exact ⟨h.sasl, h.authorized, h.authenticated, h.pending, h.created, h.sends, h.settled⟩
  | writeAuthRequest =>
      obtain ⟨-, hnext⟩ := Option.ite_none_right_eq_some.mp hstep
      have hmarked : Secure { connection with
          history := connection.history ++ [.wroteAuth connection.socket] } := h.marks nofun
      dsimp only at hnext
      split at hnext <;> cases hnext
      · exact ⟨h.sasl, hmarked.authorized, hmarked.authenticated, hmarked.pending, h.created,
          hmarked.sends, hmarked.settled⟩
      · exact ⟨h.sasl, h.authorized, h.authenticated, h.pending, h.created, h.sends, h.settled⟩
  | rawResponse =>
      obtain ⟨-, hnext⟩ := Option.ite_none_right_eq_some.mp hstep
      cases hnext
      exact ⟨h.sasl, h.authorized, h.authenticated, h.pending, h.created, h.sends, h.settled⟩
  | saslDone hrtime sessionLifetime => exact h.saslDone hok hstep
  | saslFailed error =>
      rw [Connection.step] at hstep
      split at hstep <;> cases hstep
      exact ⟨h.sasl, h.authorized, h.authenticated, h.pending, h.created, h.sends, nofun⟩
  | clearAuthentication => exact h.clearAuthentication hstep
  | response now response =>
      obtain ⟨-, hnext⟩ := Option.ite_none_left_eq_some.mp hstep
      exact h.queueStep hnext fun _ _ h => nomatch h
  | maybeThrottle now time => exact h.queueStep hstep fun _ _ h => nomatch h
  | timeoutRequest now ref => exact h.queueStep hstep fun _ _ h => nomatch h
  | intervalEnd =>
      obtain ⟨-, hnext⟩ := Option.ite_none_right_eq_some.mp hstep
      exact h.queueStep hnext fun _ _ h => nomatch h
  | checkTimer now => exact h.queueStep hstep fun _ _ h => nomatch h

/-- In every run in which a connection with SASL keeps its socket while it matters, nothing that
needs authentication is written before an exchange has completed on the same socket. -/
theorem authorized_of_guarded {options : ConnectionOptions} (hsasl : options.sasl = true)
    {events : List Event}
    (hguarded : Meets step (fun connection event => connection.guarded event = true)
      (new options) events)
    (hrun : run step (new options) events = some connection) : Authorized connection.history := by
  have hnew : Secure (new options) :=
    { sasl := hsasl
      authorized := fun _ _ _ _ heq => absurd heq.symm (List.append_ne_nil_of_right_ne_nil _
        (List.cons_ne_nil _ _))
      authenticated := fun h => nomatch h
      pending := fun _ h => nomatch h
      created := fun _ h => nomatch h
      sends := fun _ h => nomatch h
      settled := fun _ h => nomatch h }
  have hsecure : Secure connection := invariant_of_meets
    (fun _ _ _ h hok hstep => h.step hok hstep) hnew hguarded hrun
  exact hsecure.authorized

/-- A request to store messages. -/
def produceRequest : ProtocolRequest :=
  { apiKey := 0, apiName := "Produce", apiVersion := 7, expectResponse := true,
    requestTimeout := none }

/-- The second request of an exchange. -/
def saslAuthenticateRequest : ProtocolRequest :=
  { apiKey := saslAuthenticateKey, apiName := "SaslAuthenticate", apiVersion := 1,
    expectResponse := true, requestTimeout := none }

/-- A connection with SASL and without a limit on inflight requests. -/
def withSasl : Connection := new ⟨true, 10000, none, 30000, true⟩

/-- A call of `send` that starts an exchange on the first socket, up to its own `createRequest`. -/
def firstExchange : List Event :=
  [.setVersions (.ok 1), .connect false, .onConnect 1, .send 0 produceRequest,
    .resumeEncoded 1 0 (.ok none), .response 2 ⟨0, [], 4⟩, .send 3 saslAuthenticateRequest,
    .resumeEncoded 4 2 (.ok none), .response 5 ⟨1, [], 4⟩, .saslDone 6 0, .clearAuthentication,
    .resumeSend 1]

/-- The call pushes its request on the same socket. -/
def authenticatedSend : List Event := firstExchange ++ [.resumeEncoded 7 1 (.ok none)]

/-- A produce request that is sent after the exchange is authorized. -/
theorem authorized_authenticatedSend :
    ∃ connection, run step withSasl authenticatedSend = some connection ∧
      .wrote 1 produceRequest.apiKey ∈ connection.history ∧ Authorized connection.history := by
  have hhistory : (run step withSasl authenticatedSend).map Connection.history =
      some [.wrote 1 17, .wrote 1 36, .exchanged 1, .wrote 1 0] := by decide +kernel
  obtain ⟨connection, hrun, heq⟩ := Option.map_eq_some_iff.mp hhistory
  refine ⟨connection, hrun, ?_, authorized_of_guarded rfl (by decide +kernel) hrun⟩
  rw [heq]
  exact List.mem_append_right [_, _, _] (List.mem_singleton_self _)

/-- The server closes the first socket while the call encodes its request, and a second socket is
connected before the call pushes it. -/
def reconnectedSend : List Event :=
  firstExchange ++ [.onEnd 1, .resumeDisconnect 0, .connect false, .onConnect 2,
    .resumeEncoded 7 1 (.ok none)]

/-- The request is written to the second socket, on which there has been no exchange. -/
theorem unauthorized_reconnectedSend :
    ∃ connection, run step withSasl reconnectedSend = some connection ∧
      ¬ Authorized connection.history := by
  have hhistory : (run step withSasl reconnectedSend).map Connection.history =
      some [.wrote 1 17, .wrote 1 36, .exchanged 1, .wrote 2 0] := by decide +kernel
  obtain ⟨connection, hrun, heq⟩ := Option.map_eq_some_iff.mp hhistory
  refine ⟨connection, hrun, fun hauthorized => ?_⟩
  have hexchanged := hauthorized [.wrote 1 17, .wrote 1 36, .exchanged 1] 2 0 [] heq (by decide)
  simp at hexchanged

end Connection

end KafkaJs.Network
