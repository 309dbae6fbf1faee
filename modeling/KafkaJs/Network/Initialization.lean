import KafkaJs.Network.Broker
import KafkaJs.Network.Disconnection

/-!
# A connected broker is initialized

Whether a broker is connected is read off its connections; whether it can look up requests depends
on how far a call of `connect` has come. `connect` returns early when the broker is connected, also
after an attempt that has failed in between. A connection counts as connected while it is
disconnecting, and a socket can connect after the attempt has given up.

With SASL the two go together, since nothing authenticates a connection before requests can be
looked up. `usable_of_guarded` says when they do without SASL, and `unusable_failedVersions` is a
broker whose `apiVersions` has timed out.
-/

namespace KafkaJs.Network

open KafkaJs.Execution KafkaJs.Utils

/-! ## Connections on which nothing is looked up -/

namespace Connection

/-- The events after which a connection may count as connected. -/
def Event.touches : Event → Bool
  | .onConnect _ | .onEnd _ | .onError _ _ | .onTimeout _ | .disconnect => true
  | _ => false

/-- No exchange has been started. -/
def Unauthenticated (connection : Connection) : Prop :=
  connection.authenticatedAt = none ∧ connection.authentication = none

variable {connection next : Connection}

/-- No other event connects a connection. -/
theorem status_of_step {event : Event} (htouches : event.touches = false)
    (hstep : connection.step event = some next) :
    next.connectionStatus = connection.connectionStatus ∨
      next.connectionStatus = .disconnected := by
  have hqueue : ∀ {event : RequestQueue.Event}, connection.queueStep event = some next →
      next.connectionStatus = connection.connectionStatus := by
    intro event hstep
    obtain ⟨queue, -, rfl⟩ := Option.map_eq_some_iff.mp hstep
    rfl
  cases event with
  | onConnect _ | onEnd _ | onError _ _ | onTimeout _ | disconnect => cases htouches
  | setVersions version =>
      cases hstep
      exact Or.inl rfl
  | connect failed =>
      cases hstep
      exact Or.inl (connect_requestQueue failed).2
  | resumeDisconnect waiter =>
      obtain ⟨-, hnext⟩ := Option.ite_none_right_eq_some.mp hstep
      cases hnext
      exact Or.inr rfl
  | authenticate hrtime =>
      cases hstep
      exact Or.inl (sharedAuthenticate_requestQueue hrtime).2
  | send hrtime request =>
      cases hstep
      exact Or.inl (send_requestQueue hrtime request).2
  | resumeSend id =>
      rw [Connection.step, Connection.resumeSend] at hstep
      split at hstep <;> cases hstep
      exact Or.inl startRequest_requestQueue.2
  | resumeEncoded now id encoded =>
      rw [Connection.step, Connection.resumeEncoded] at hstep
      split at hstep
      · cases encoded with
        | error error =>
            cases hstep
            exact Or.inl rfl
        | ok sendError =>
            dsimp only at hstep
            split at hstep
            · obtain ⟨pushed, hpush, rfl⟩ := Option.map_eq_some_iff.mp hstep
              obtain ⟨queue, -, rfl⟩ := Option.map_eq_some_iff.mp hpush
              exact Or.inl rfl
            · cases hstep
              exact Or.inl rfl
      · cases hstep
  | sendAuthRequest =>
      rw [Connection.step] at hstep
      split at hstep <;> cases hstep
      exact Or.inl rfl
  | writeAuthRequest =>
      obtain ⟨-, hnext⟩ := Option.ite_none_right_eq_some.mp hstep
      dsimp only at hnext
      split at hnext <;> cases hnext <;> exact Or.inl rfl
  | rawResponse =>
      obtain ⟨-, hnext⟩ := Option.ite_none_right_eq_some.mp hstep
      cases hnext
      exact Or.inl rfl
  | saslDone hrtime sessionLifetime =>
      rw [Connection.step, Connection.saslDone] at hstep
      split at hstep
      · split at hstep <;> cases hstep
        exact Or.inl rfl
      · cases hstep
  | saslFailed error =>
      rw [Connection.step] at hstep
      split at hstep <;> cases hstep
      exact Or.inl rfl
  | clearAuthentication =>
      rw [Connection.step, Connection.clearAuthentication] at hstep
      split at hstep <;> cases hstep
      exact Or.inl rfl
  | response now response =>
      obtain ⟨-, hnext⟩ := Option.ite_none_left_eq_some.mp hstep
      exact Or.inl (hqueue hnext)
  | maybeThrottle now time => exact Or.inl (hqueue hstep)
  | timeoutRequest now ref => exact Or.inl (hqueue hstep)
  | intervalEnd =>
      obtain ⟨-, hnext⟩ := Option.ite_none_right_eq_some.mp hstep
      exact Or.inl (hqueue hnext)
  | checkTimer now => exact Or.inl (hqueue hstep)

/-- A connection that connects is not authenticated. -/
theorem Unauthenticated.connect (h : Unauthenticated connection) (failed : Bool) :
    Unauthenticated (connection.connect failed) := by
  unfold Connection.connect
  split
  · exact h
  · split <;> exact ⟨rfl, h.2⟩

/-- A connection that is rejected is not authenticated. -/
theorem Unauthenticated.rejectAndDisconnect (h : Unauthenticated connection)
    (error : KafkaError) : Unauthenticated (connection.rejectAndDisconnect error) := by
  unfold Connection.rejectAndDisconnect
  split
  · exact ⟨rfl, h.2⟩
  · exact h

/-- Starting a request authenticates nothing. -/
theorem Unauthenticated.startRequest (h : Unauthenticated connection) :
    Unauthenticated connection.startRequest.1 := by
  unfold Connection.startRequest
  split <;> exact h

/-- Only `authenticate` and the requests that need it start an exchange. -/
theorem Unauthenticated.step {event : Event} (h : Unauthenticated connection)
    (huses : Broker.usesLookup event = false) (hstep : connection.step event = some next) :
    Unauthenticated next := by
  have hqueue : ∀ {other : Connection} {event : RequestQueue.Event}, Unauthenticated other →
      other.queueStep event = some next → Unauthenticated next := by
    intro other event hother hstep
    obtain ⟨queue, -, rfl⟩ := Option.map_eq_some_iff.mp hstep
    exact hother
  have hnone := h.2
  cases event with
  | authenticate hrtime => cases huses
  | setVersions version =>
      cases hstep
      exact h
  | connect failed =>
      cases hstep
      exact h.connect failed
  | onConnect socket =>
      obtain ⟨-, hnext⟩ := Option.ite_none_right_eq_some.mp hstep
      have hconnected : Unauthenticated { connection with connectionStatus := .connected } := h
      exact hqueue hconnected hnext
  | onEnd socket =>
      obtain ⟨-, hnext⟩ := Option.ite_none_right_eq_some.mp hstep
      cases hnext
      unfold Connection.onEnd
      split
      · exact ⟨rfl, h.2⟩
      · split
        · exact h.rejectAndDisconnect _
        · exact ⟨rfl, h.2⟩
  | onError socket message | onTimeout socket =>
      obtain ⟨-, hnext⟩ := Option.ite_none_right_eq_some.mp hstep
      cases hnext
      exact h.rejectAndDisconnect _
  | disconnect =>
      cases hstep
      exact ⟨rfl, h.2⟩
  | resumeDisconnect waiter =>
      obtain ⟨-, hnext⟩ := Option.ite_none_right_eq_some.mp hstep
      cases hnext
      exact h
  | send hrtime request =>
      cases hstep
      unfold Connection.send
      split
      -- the check is made only for requests that need authentication
      · next hcheck => exact absurd hcheck.2 (ne_true_of_eq_false huses)
      · exact h.startRequest
  | resumeSend id =>
      rw [Connection.step, Connection.resumeSend] at hstep
      split at hstep <;> cases hstep
      exact h.startRequest
  | resumeEncoded now id encoded =>
      rw [Connection.step, Connection.resumeEncoded] at hstep
      split at hstep
      · cases encoded with
        | error error =>
            cases hstep
            exact h
        | ok sendError =>
            dsimp only at hstep
            split at hstep
            · obtain ⟨pushed, hpush, rfl⟩ := Option.map_eq_some_iff.mp hstep
              obtain ⟨queue, -, rfl⟩ := Option.map_eq_some_iff.mp hpush
              exact h
            · cases hstep
              exact h
      · cases hstep
  | sendAuthRequest | saslFailed error =>
      rw [Connection.step, hnone] at hstep
      cases hstep
  | writeAuthRequest =>
      obtain ⟨-, hnext⟩ := Option.ite_none_right_eq_some.mp hstep
      dsimp only at hnext
      split at hnext <;> cases hnext <;> exact h
  | rawResponse =>
      obtain ⟨-, hnext⟩ := Option.ite_none_right_eq_some.mp hstep
      cases hnext
      exact h
  | saslDone hrtime sessionLifetime =>
      rw [Connection.step, Connection.saslDone, hnone] at hstep
      cases hstep
  | clearAuthentication =>
      rw [Connection.step, Connection.clearAuthentication, hnone] at hstep
      cases hstep
  | response now response =>
      obtain ⟨-, hnext⟩ := Option.ite_none_left_eq_some.mp hstep
      exact hqueue h hnext
  | maybeThrottle now time => exact hqueue h hstep
  | timeoutRequest now ref => exact hqueue h hstep
  | intervalEnd =>
      obtain ⟨-, hnext⟩ := Option.ite_none_right_eq_some.mp hstep
      exact hqueue h hnext
  | checkTimer now => exact hqueue h hstep

end Connection

/-! ## The attempts -/

/-- The call has the lock and has passed the check that returns early. -/
def ConnectPhase.passed : ConnectPhase → Bool
  | .connecting _ | .fetchingVersions _ _ | .closing _ => true
  | _ => false

/-- The call has the lock. -/
def ConnectPhase.holds : ConnectPhase → Bool
  | .acquired | .connecting _ | .fetchingVersions _ _ | .closing _ | .authenticating => true
  | _ => false

/-- The call has returned. -/
def ConnectPhase.settled : ConnectPhase → Bool
  | .resolved | .rejected _ => true
  | _ => false

namespace Broker

/-- The versions are known and `lookupRequest` looks them up, so that no request fails because the
broker is not connected. -/
def Initialized (broker : Broker) : Prop :=
  (∃ versions, broker.versions = some versions ∧ broker.lookupRequest = .lookup versions) ∧
    ∀ apiKey bestImplementedVersion,
      broker.lookupRequest.call apiKey bestImplementedVersion ≠ .error brokerNotConnected

/-- A broker is initialized when a call of `connect` has been resolved, and when it is connected and
no call of `connect` is in progress. -/
def Usable (broker : Broker) : Prop :=
  (.resolved ∈ broker.attempts → Initialized broker) ∧
    ((∀ phase ∈ broker.attempts, phase.settled = true) →
      ∀ hrtime, broker.isConnected hrtime = true → Initialized broker)

/-- With SASL, or once requests can be looked up, nothing can go wrong. -/
def safe (broker : Broker) : Bool :=
  broker.options.sasl || decide (broker.lookupRequest ≠ .notInitializedLookup)

/-- The candidates that `apiVersions` tries after the current one. -/
def remaining (attempt : Nat) (broker : Broker) : List Int :=
  match broker.attempts[attempt]? with
  | some (.fetchingVersions _ candidates) => candidates.tail
  | _ => []

/-- As long as requests cannot be looked up, an attempt fails only when no connection is connected,
and the sockets and `disconnect` act on the connections only while an attempt is past its check. -/
def guarded (broker : Broker) : Event → Bool
  | .connectFailed _ _ | .closed _ => broker.safe || !broker.pool.any Connection.isConnected
  | .apiVersions attempt _ (.error error) =>
      broker.safe || !broker.pool.any Connection.isConnected ||
        decide (error.name = .kafkaJSConnectionClosedError) ||
        decide (error.code = some 35 ∧ broker.remaining attempt ≠ [])
  | .disconnect => broker.safe || broker.attempts.any ConnectPhase.passed
  | .connection _ event =>
      broker.safe || broker.attempts.any ConnectPhase.passed || !event.touches
  | _ => true

/-- The call has the lock. -/
def Holds (broker : Broker) (attempt : Nat) : Prop :=
  ∃ phase, broker.attempts[attempt]? = some phase ∧ phase.holds = true

/-- The lock is as the attempts say; what has been looked up, authenticated or returned is so for a
broker that can look up requests; and the connections of another broker without SASL are down unless
an attempt is past its check. -/
structure Sound (broker : Broker) : Prop where
  serves : broker.lock.Serves broker.Holds fun attempt => broker.attempts[attempt]? = some .waiting
  known : ∀ versions, broker.lookupRequest = .lookup versions → broker.versions = some versions
  ready : ∀ phase ∈ broker.attempts, phase = .resolved ∨ phase = .authenticating →
    broker.lookupRequest ≠ .notInitializedLookup
  down : broker.options.sasl = false → broker.lookupRequest = .notInitializedLookup →
    (∀ phase ∈ broker.attempts, phase.passed = false) →
      ∀ connection ∈ broker.pool, connection.isConnected = false
  unauthenticated : broker.lookupRequest = .notInitializedLookup →
    ∀ connection ∈ broker.pool, connection.Unauthenticated

variable {broker next : Broker} {attempt : Nat} {old phase : ConnectPhase}

/-- An attempt that has passed the versions holds the lock. -/
theorem holds_of_passed (h : phase.passed = true) : phase.holds = true := by
  cases phase with
  | connecting _ | fetchingVersions _ _ | closing _ => rfl
  | waiting | acquired | authenticating | resolved | rejected _ => cases h

/-- The attempts after the phase of one was set. -/
theorem getElem?_setPhase (hold : broker.attempts[attempt]? = some old) (other : Nat) :
    (broker.setPhase attempt phase).attempts[other]? =
      if other = attempt then some phase else broker.attempts[other]? := by
  obtain ⟨hlt, -⟩ := List.getElem?_eq_some_iff.mp hold
  show (broker.attempts.set attempt phase)[other]? = _
  rw [List.getElem?_set]
  by_cases heq : attempt = other
  · rw [if_pos heq, if_pos hlt, if_pos heq.symm]
  · rw [if_neg heq, if_neg (Ne.symm heq)]

/-- The phases after one of them was set. -/
theorem mem_setPhase {other : ConnectPhase} (h : other ∈ (broker.setPhase attempt phase).attempts) :
    other = phase ∨ other ∈ broker.attempts :=
  (List.mem_or_eq_of_mem_set h).symm

/-- Who holds the lock after a phase was set. -/
theorem holds_setPhase (hold : broker.attempts[attempt]? = some old) (other : Nat) :
    (broker.setPhase attempt phase).Holds other ↔
      if other = attempt then phase.holds = true else broker.Holds other := by
  rw [Holds, getElem?_setPhase hold]
  split
  · exact ⟨fun ⟨_, heq, hholds⟩ => Option.some.inj heq ▸ hholds, fun hholds => ⟨phase, rfl, hholds⟩⟩
  · exact Iff.rfl

/-- Who waits for the lock after a phase was set. -/
theorem waits_setPhase (hold : broker.attempts[attempt]? = some old) (other : Nat) :
    (broker.setPhase attempt phase).attempts[other]? = some .waiting ↔
      if other = attempt then phase = .waiting else broker.attempts[other]? = some .waiting := by
  rw [getElem?_setPhase hold]
  split
  · exact Option.some_inj
  · exact Iff.rfl

/-- An attempt that holds the lock does not wait for it. -/
theorem ne_waiting_of_holds (h : phase.holds = true) : phase ≠ .waiting := by
  rintro rfl
  cases h

/-- A holder goes from one phase to another that has the lock. -/
theorem serves_setPhase (h : Sound broker) (hold : broker.attempts[attempt]? = some old)
    (hholds : old.holds = true) (hphase : phase.holds = true) :
    broker.lock.Serves (broker.setPhase attempt phase).Holds
      fun other => (broker.setPhase attempt phase).attempts[other]? = some .waiting := by
  refine h.serves.congr ?_ ?_
  · intro other
    rw [holds_setPhase hold]
    split
    · next heq => exact ⟨fun _ => heq ▸ ⟨old, hold, hholds⟩, fun _ => hphase⟩
    · exact Iff.rfl
  · intro other
    rw [waits_setPhase hold]
    split
    · next heq =>
        subst heq
        rw [hold, Option.some_inj]
        exact iff_of_false (ne_waiting_of_holds hphase) (ne_waiting_of_holds hholds)
    · exact Iff.rfl

/-- The holder ends and the first waiter gets the lock. -/
theorem serves_finish (h : Sound broker) (hold : broker.attempts[attempt]? = some old)
    (hholds : old.holds = true) (hsettled : phase.settled = true) :
    (broker.finish attempt phase).lock.Serves (broker.finish attempt phase).Holds
      fun other => (broker.finish attempt phase).attempts[other]? = some .waiting := by
  have hrelease := h.serves.release
  have hnone : phase.holds ≠ true ∧ phase ≠ .waiting := by
    cases phase with
    | resolved | rejected _ => exact ⟨nofun, nofun⟩
    | waiting | acquired | connecting _ | fetchingVersions _ _ | closing _ | authenticating =>
        cases hsettled
  -- nobody else has the lock
  have hfree : ∀ other, ¬ (broker.setPhase attempt phase).Holds other := by
    intro other hother
    rw [holds_setPhase hold] at hother
    split at hother
    · exact hnone.1 hother
    · next hne => exact hne (h.serves.exclusive other attempt hother ⟨old, hold, hholds⟩)
  have hwaits : ∀ other : Nat,
      (broker.setPhase attempt phase).attempts[other]? = some ConnectPhase.waiting ↔
        broker.attempts[other]? = some ConnectPhase.waiting := by
    intro other
    rw [waits_setPhase hold]
    split
    · next heq =>
        subst heq
        rw [hold, Option.some_inj]
        exact iff_of_false hnone.2 (ne_waiting_of_holds hholds)
    · exact Iff.rfl
  unfold finish
  rcases hlock : broker.lock.release with ⟨lock, _ | waiter⟩
  · rw [hlock] at hrelease
    refine hrelease.congr (fun other => iff_of_false (hfree other) nofun) fun other => ?_
    exact (hwaits other).trans ⟨fun hother => ⟨hother, nofun⟩, fun hother => hother.1⟩
  · rw [hlock] at hrelease
    have hwaiter : (broker.setPhase attempt phase).attempts[waiter]? = some .waiting := by
      rw [hwaits, ← h.serves.waiting]
      exact Lock.mem_waiting_of_release (congrArg Prod.snd hlock)
    refine hrelease.congr ?_ ?_
    · intro other
      show ((broker.setPhase attempt phase).setPhase waiter .acquired).Holds other ↔ _
      rw [holds_setPhase hwaiter]
      split
      · next heq => exact iff_of_true rfl (congrArg some heq.symm)
      · next hne => exact iff_of_false (hfree other) fun heq => hne (Option.some.inj heq).symm
    · intro other
      show ((broker.setPhase attempt phase).setPhase waiter .acquired).attempts[other]? = _ ↔ _
      rw [waits_setPhase hwaiter]
      split
      · next heq => exact iff_of_false nofun fun hother => hother.2 (congrArg some heq.symm)
      · next hne =>
          rw [hwaits]
          exact ⟨fun hother => ⟨hother, fun heq => hne (Option.some.inj heq).symm⟩,
            fun hother => hother.1⟩

/-! ## The steps -/

/-- Finishing an attempt leaves the versions, the lookup, the pool and the options alone. -/
theorem finish_fields : (broker.finish attempt phase).versions = broker.versions ∧
    (broker.finish attempt phase).lookupRequest = broker.lookupRequest ∧
      (broker.finish attempt phase).pool = broker.pool ∧
        (broker.finish attempt phase).options = broker.options := by
  unfold finish
  split <;> exact ⟨rfl, rfl, rfl, rfl⟩

/-- The phases after an attempt has finished. -/
theorem mem_finish {other : ConnectPhase} (h : other ∈ (broker.finish attempt phase).attempts) :
    other = phase ∨ other = .acquired ∨ other ∈ broker.attempts := by
  unfold finish at h
  split at h
  · exact (mem_setPhase h).imp_right Or.inr
  · rcases mem_setPhase h with heq | hmem
    · exact Or.inr (Or.inl heq)
    · exact (mem_setPhase hmem).imp_right Or.inr

/-- An attempt ends. -/
theorem Sound.finish (h : Sound broker) (hold : broker.attempts[attempt]? = some old)
    (hholds : old.holds = true) (hsettled : phase.settled = true)
    (hready : phase = .resolved → broker.lookupRequest ≠ .notInitializedLookup)
    (hdown : broker.options.sasl = false → broker.lookupRequest = .notInitializedLookup →
      ∀ connection ∈ broker.pool, connection.isConnected = false) :
    Sound (broker.finish attempt phase) := by
  obtain ⟨hversions, hlookup, hpool, hoptions⟩ := @finish_fields broker attempt phase
  refine ⟨serves_finish h hold hholds hsettled, ?_, ?_, ?_, ?_⟩
  · rw [hversions, hlookup]
    exact h.known
  · intro other hmem hother
    rw [hlookup]
    rcases mem_finish hmem with rfl | rfl | hmem
    · rcases hother with hresolved | rfl
      · exact hready hresolved
      · cases hsettled
    · rcases hother with heq | heq <;> cases heq
    · exact h.ready other hmem hother
  · rw [hoptions, hlookup, hpool]
    exact fun hsasl hnone _ => hdown hsasl hnone
  · rw [hlookup, hpool]
    exact h.unauthenticated

/-- The holder of the lock is the only attempt past its check. -/
theorem Sound.passed_of_holds (h : Sound broker) (hold : broker.attempts[attempt]? = some old)
    (hholds : old.holds = true) (hpassed : old.passed = false) :
    ∀ phase ∈ broker.attempts, phase.passed = false := by
  intro other hmem
  by_contra hother
  obtain ⟨index, hindex⟩ := List.getElem?_of_mem hmem
  have hholder := holds_of_passed (Bool.eq_true_of_not_eq_false hother)
  have heq := h.serves.exclusive index attempt ⟨other, hindex, hholder⟩ ⟨old, hold, hholds⟩
  rw [heq, hold] at hindex
  cases hindex
  exact hother hpassed

/-- A broker that is connected while no attempt is past its check can look up requests. -/
theorem Sound.ready_of_isConnected (h : Sound broker) {hrtime : Int}
    (hnone : ∀ phase ∈ broker.attempts, phase.passed = false)
    (hconnected : broker.isConnected hrtime = true) :
    broker.lookupRequest ≠ .notInitializedLookup := by
  intro hlookup
  unfold isConnected at hconnected
  split at hconnected
  · obtain ⟨connection, hmem, hauthenticated⟩ :=
      List.any_eq_true.mp ((Bool.and_eq_true _ _).mp hconnected).2
    have hat := (of_decide_eq_true hauthenticated).1
    rw [(h.unauthenticated hlookup connection hmem).1] at hat
    cases hat
  · next hsasl =>
      obtain ⟨connection, hmem, hup⟩ := List.any_eq_true.mp hconnected
      rw [h.down (Bool.eq_false_of_not_eq_true hsasl) hlookup hnone connection hmem] at hup
      cases hup

/-- The attempts after another one was made. -/
theorem getElem?_attempt (attempts : List ConnectPhase) (new : ConnectPhase) (other : Nat) :
    (attempts ++ [new])[other]? =
      if other = attempts.length then some new else attempts[other]? := by
  split
  · next heq => rw [heq, List.getElem?_concat_length]
  · next hne =>
      rcases Nat.lt_or_gt_of_ne hne with hlt | hgt
      · exact List.getElem?_append_left hlt
      · rw [List.getElem?_eq_none (Nat.le_of_lt hgt), List.getElem?_eq_none]
        rw [List.length_append]
        exact hgt

/-- A new call that has the lock or waits for it. -/
theorem Sound.newAttempt (h : Sound broker) {lock : Lock Nat} {new : ConnectPhase}
    (hnew : new = .acquired ∨ new = .waiting)
    (hserves : lock.Serves
      (fun other => broker.Holds other ∨ new.holds = true ∧ other = broker.attempts.length)
      fun other => broker.attempts[other]? = some .waiting ∨
        new = .waiting ∧ other = broker.attempts.length) :
    Sound { broker with lock, attempts := broker.attempts ++ [new] } := by
  have hmem : ∀ other ∈ broker.attempts ++ [new], other = new ∨ other ∈ broker.attempts :=
    fun other hother => (List.mem_append.mp hother).symm.imp_left List.mem_singleton.mp
  refine ⟨hserves.congr ?_ ?_, h.known, ?_, ?_, h.unauthenticated⟩
  · intro other
    show (∃ phase, (broker.attempts ++ [new])[other]? = some phase ∧ phase.holds = true) ↔ _
    rw [getElem?_attempt]
    by_cases heq : other = broker.attempts.length
    · subst heq
      simp [Holds]
    · simp [Holds, heq]
  · intro other
    show (broker.attempts ++ [new])[other]? = _ ↔ _
    rw [getElem?_attempt]
    by_cases heq : other = broker.attempts.length
    · subst heq
      simp
    · simp [heq]
  · intro other hother hdone
    rcases hmem other hother with rfl | hold
    · rcases hnew with rfl | rfl <;> rcases hdone with heq | heq <;> cases heq
    · exact h.ready other hold hdone
  · intro hsasl hlookup hnone
    exact h.down hsasl hlookup fun phase hphase => hnone phase (List.mem_append_left _ hphase)

/-- A call of `connect` takes the lock or waits for it. -/
theorem Sound.connect (h : Sound broker) : Sound broker.connect := by
  have hserves := @Lock.Serves.acquire _ _ _ _ h.serves broker.attempts.length
    (by rw [List.getElem?_eq_none (Nat.le_refl _)]; exact nofun)
  unfold Broker.connect
  rcases hlock : broker.lock.acquire broker.attempts.length with ⟨lock, _ | _⟩
  · rw [hlock] at hserves
    exact h.newAttempt (Or.inr rfl) (hserves.congr (by simp [ConnectPhase.holds]) (by simp))
  · rw [hlock] at hserves
    exact h.newAttempt (Or.inl rfl) (hserves.congr (by simp [ConnectPhase.holds]) (by simp))

/-- An attempt goes on under the lock and cannot look up requests yet. -/
theorem Sound.setPhase (h : Sound broker) (hold : broker.attempts[attempt]? = some old)
    (hholds : old.holds = true) (hpassed : phase.passed = true) {pool : List Connection}
    (hpool : broker.lookupRequest = .notInitializedLookup →
      ∀ connection ∈ pool, connection.Unauthenticated) :
    Sound { broker.setPhase attempt phase with pool } := by
  obtain ⟨hlt, -⟩ := List.getElem?_eq_some_iff.mp hold
  refine ⟨serves_setPhase h hold hholds (holds_of_passed hpassed), h.known, ?_, ?_, hpool⟩
  · intro other hmem hother
    rcases mem_setPhase hmem with rfl | hmem
    · rcases hother with heq | heq <;> rw [heq] at hpassed <;> cases hpassed
    · exact h.ready other hmem hother
  · intro _ _ hnone
    rw [hnone phase (List.mem_set hlt phase)] at hpassed
    cases hpassed

/-- An attempt can look up requests. -/
theorem Sound.setLookup (h : Sound broker) (hold : broker.attempts[attempt]? = some old)
    (hholds : old.holds = true) (hrtime : Int) (pool : Nat) (versions : ApiVersions) :
    Sound (broker.setLookup attempt hrtime pool versions) :=
  { serves := serves_setPhase h hold hholds rfl
    known := fun _ heq => by cases heq; rfl
    ready := fun _ _ _ => nofun
    down := fun _ heq => nomatch heq
    unauthenticated := fun heq => nomatch heq }

/-- The lock is free for the next call when a waiter gives up. -/
theorem Sound.lockTimeout (h : Sound broker) (hold : broker.attempts[attempt]? = some .waiting)
    (error : KafkaError) :
    Sound { broker.setPhase attempt (.rejected error) with lock := broker.lock.expire attempt } := by
  refine ⟨(h.serves.expire attempt).congr ?_ ?_, h.known, ?_, ?_, h.unauthenticated⟩
  · intro other
    show (broker.setPhase attempt _).Holds other ↔ _
    rw [holds_setPhase hold]
    split
    · next heq =>
        subst heq
        refine iff_of_false nofun ?_
        rintro ⟨phase, hphase, hholds⟩
        rw [hold] at hphase
        cases hphase
        cases hholds
    · exact Iff.rfl
  · intro other
    show (broker.setPhase attempt _).attempts[other]? = _ ↔ _
    rw [waits_setPhase hold]
    split
    · next heq => exact iff_of_false nofun fun hother => hother.2 heq
    · next hne => exact ⟨fun hother => ⟨hother, hne⟩, fun hother => hother.1⟩
  · intro other hmem hother
    rcases mem_setPhase hmem with rfl | hmem
    · rcases hother with heq | heq <;> cases heq
    · exact h.ready other hmem hother
  · intro hsasl hlookup hnone
    refine h.down hsasl hlookup fun phase hphase => ?_
    obtain ⟨index, hindex⟩ := List.getElem?_of_mem hphase
    by_cases heq : index = attempt
    · rw [heq, hold] at hindex
      cases hindex
      rfl
    · refine hnone phase (List.mem_of_getElem? (i := index) ?_)
      show (broker.setPhase attempt _).attempts[index]? = _
      rw [getElem?_setPhase hold, if_neg heq]
      exact hindex

/-- Without SASL, and before requests can be looked up, things can go wrong. -/
theorem safe_eq_false (hsasl : broker.options.sasl = false)
    (hlookup : broker.lookupRequest = .notInitializedLookup) : broker.safe = false := by
  rw [safe, hsasl, hlookup]
  rfl

/-- What a step that fails an attempt is asked for. -/
theorem down_of_guarded (hok : (broker.safe || !broker.pool.any Connection.isConnected) = true)
    (hsasl : broker.options.sasl = false)
    (hlookup : broker.lookupRequest = .notInitializedLookup) :
    ∀ connection ∈ broker.pool, connection.isConnected = false := by
  rw [safe_eq_false hsasl hlookup, Bool.false_or, Bool.not_eq_true', List.any_eq_false] at hok
  exact fun connection hmem => Bool.eq_false_of_not_eq_true (hok connection hmem)

/-- If no attempt has passed, none of them has. -/
theorem any_passed (hnone : ∀ phase ∈ broker.attempts, phase.passed = false) :
    broker.attempts.any ConnectPhase.passed = false :=
  List.any_eq_false.mpr fun phase hmem => ne_true_of_eq_false (hnone phase hmem)

/-- An attempt that has the lock goes on. -/
theorem Sound.resumeConnect (h : Sound broker) (hold : broker.attempts[attempt]? = some .acquired)
    (hrtime : Int) (socketFails : Bool) :
    Sound (broker.resumeConnect attempt hrtime socketFails) := by
  have hnone := h.passed_of_holds hold rfl rfl
  unfold Broker.resumeConnect
  split
  · next hconnected =>
      have hready := h.ready_of_isConnected hnone hconnected
      exact h.finish hold rfl rfl (fun _ => hready) fun _ hlookup => absurd hlookup hready
  · refine h.setPhase hold rfl rfl fun hlookup => ?_
    have hpool := h.unauthenticated hlookup
    cases hconnections : broker.pool with
    | nil => exact fun _ hmem => nomatch hmem
    | cons connection rest =>
        rw [hconnections] at hpool
        have hconnect : (connection.connect socketFails).Unauthenticated :=
          (hpool connection List.mem_cons_self).connect socketFails
        intro other hother
        rcases List.mem_cons.mp hother with rfl | hrest
        · exact hconnect
        · exact hpool other (List.mem_cons_of_mem _ hrest)

/-- An attempt that is connected asks for the versions or goes on. -/
theorem Sound.connected (h : Sound broker) {pool : Nat}
    (hold : broker.attempts[attempt]? = some (.connecting pool)) (hrtime : Int) :
    Sound (broker.connected attempt hrtime pool) := by
  unfold Broker.connected
  split
  · exact h.setLookup hold rfl hrtime pool _
  · exact h.setPhase hold rfl rfl h.unauthenticated

/-- Disconnecting a pool authenticates nothing. -/
theorem disconnect_unauthenticated {pool : List Connection}
    (h : ∀ connection ∈ pool, connection.Unauthenticated) :
    ∀ connection ∈ pool.map Connection.disconnect, connection.Unauthenticated := by
  intro connection hmem
  obtain ⟨before, hbefore, rfl⟩ := List.mem_map.mp hmem
  exact ⟨rfl, (h before hbefore).2⟩

/-- A failed request for the versions is tried with another version or ends the attempt. -/
theorem Sound.apiVersionsFailed (h : Sound broker) {pool : Nat} {candidates : List Int}
    (hold : broker.attempts[attempt]? = some (.fetchingVersions pool candidates))
    {error : KafkaError} {hrtime : Int}
    (hok : broker.guarded (.apiVersions attempt hrtime (.error error)) = true) :
    Sound (broker.apiVersionsFailed attempt pool candidates.tail error) := by
  have hdown : error.name ≠ .kafkaJSConnectionClosedError →
      ¬ (error.code = some 35 ∧ candidates.tail ≠ []) →
        (broker.safe || !broker.pool.any Connection.isConnected) = true := by
    intro hname hcode
    rw [guarded, remaining, hold] at hok
    simpa [hname, hcode] using hok
  unfold Broker.apiVersionsFailed
  split
  · exact h.setPhase hold rfl rfl fun hlookup =>
      disconnect_unauthenticated (h.unauthenticated hlookup)
  · next hname =>
      split
      · split
        · next hcandidates =>
            exact h.finish hold rfl rfl nofun
              (down_of_guarded (hdown hname fun hmore => hmore.2 hcandidates))
        · exact h.setPhase hold rfl rfl h.unauthenticated
      · next hcode =>
          exact h.finish hold rfl rfl nofun
            (down_of_guarded (hdown hname fun hmore => hcode hmore.1))

/-- An event of a connection in the pool. -/
theorem Sound.connection (h : Sound broker) {index : Nat} {event : Connection.Event}
    (hok : broker.guarded (.connection index event) = true)
    (hstep : broker.step (.connection index event) = some next) : Sound next := by
  rw [Broker.step] at hstep
  split at hstep
  · next connection hconnection =>
      obtain ⟨huses, hnext⟩ := Option.ite_none_left_eq_some.mp hstep
      obtain ⟨after, hafter, rfl⟩ := Option.map_eq_some_iff.mp hnext
      have hmem := List.mem_of_getElem? hconnection
      refine ⟨h.serves, h.known, h.ready, ?_, ?_⟩
      · intro hsasl hlookup hnone other hother
        have hpool := h.down hsasl hlookup hnone
        rcases List.mem_or_eq_of_mem_set hother with hold | rfl
        · exact hpool other hold
        · have hsafe : broker.safe = false := safe_eq_false hsasl hlookup
          rw [guarded, hsafe, any_passed hnone, Bool.false_or, Bool.false_or,
            Bool.not_eq_true'] at hok
          rcases Connection.status_of_step hok hafter with hstatus | hstatus
          · rw [Connection.isConnected, hstatus]
            exact hpool connection hmem
          · rw [Connection.isConnected, hstatus]
            rfl
      · intro hlookup other hother
        have hpool := h.unauthenticated hlookup
        rcases List.mem_or_eq_of_mem_set hother with hold | rfl
        · exact hpool other hold
        · refine (hpool connection hmem).step ?_ hafter
          by_contra hused
          exact huses ⟨Bool.eq_true_of_not_eq_false hused, hlookup⟩
  · cases hstep

/-- Every guarded event keeps the broker sound. -/
theorem Sound.step {event : Event} (h : Sound broker) (hok : broker.guarded event = true)
    (hstep : broker.step event = some next) : Sound next := by
  cases event with
  | connect =>
      cases hstep
      exact h.connect
  | lockTimeout attempt =>
      rw [Broker.step] at hstep
      split at hstep <;> cases hstep
      next hold => exact h.lockTimeout hold _
  | resumeConnect attempt hrtime socketFails =>
      rw [Broker.step] at hstep
      split at hstep <;> cases hstep
      next hold => exact h.resumeConnect hold hrtime socketFails
  | connected attempt hrtime =>
      rw [Broker.step] at hstep
      split at hstep <;> cases hstep
      next hold => exact h.connected hold hrtime
  | connectFailed attempt error =>
      rw [Broker.step] at hstep
      split at hstep <;> cases hstep
      next hold => exact h.finish hold rfl rfl nofun (down_of_guarded hok)
  | apiVersions attempt hrtime response =>
      unfold Broker.step at hstep
      dsimp only at hstep
      split at hstep <;> cases hstep
      · next hold => exact h.setLookup hold rfl hrtime _ _
      · next hold => exact h.apiVersionsFailed hold hok
  | closed attempt =>
      rw [Broker.step] at hstep
      split at hstep <;> cases hstep
      next hold => exact h.finish hold rfl rfl nofun (down_of_guarded hok)
  | authenticated attempt error =>
      rw [Broker.step] at hstep
      split at hstep <;> cases hstep
      next hold =>
        have hready := h.ready _ (List.mem_of_getElem? hold) (Or.inr rfl)
        refine h.finish hold rfl ?_ (fun _ => hready) fun _ hlookup => absurd hlookup hready
        cases error <;> rfl
  | disconnect =>
      cases hstep
      refine ⟨h.serves, h.known, h.ready, ?_, ?_⟩
      · intro hsasl hlookup hnone
        have hsafe : broker.safe = false := safe_eq_false hsasl hlookup
        have hany : broker.attempts.any ConnectPhase.passed = false := any_passed hnone
        rw [guarded, hsafe, hany] at hok
        cases hok
      · exact fun hlookup => disconnect_unauthenticated (h.unauthenticated hlookup)
  | rebuildPool =>
      cases hstep
      refine ⟨h.serves, h.known, h.ready, ?_, ?_⟩
      · intro _ _ _ connection hmem
        rw [(List.mem_replicate.mp hmem).2]
        rfl
      · intro _ connection hmem
        rw [(List.mem_replicate.mp hmem).2]
        exact ⟨rfl, rfl⟩
  | connection index event => exact h.connection hok hstep

/-- A broker with a lookup is initialized. -/
theorem Sound.initialized (h : Sound broker)
    (hready : broker.lookupRequest ≠ .notInitializedLookup) : Initialized broker := by
  cases hlookup : broker.lookupRequest with
  | notInitializedLookup => exact absurd hlookup hready
  | lookup versions =>
      refine ⟨⟨versions, h.known versions hlookup, hlookup⟩, fun apiKey best => ?_⟩
      rw [hlookup]
      show lookup versions apiKey best ≠ _
      unfold lookup
      split
      · exact nofun
      · intro heq
        cases heq

/-- In every run in which, as long as a broker without SASL cannot look up requests, attempts fail
only with their connections down and nothing else acts on the connections, a broker for which
`connect` has been resolved, or that is connected while no call of `connect` is in progress, is
initialized. -/
theorem usable_of_guarded {options : ConnectionOptions} {versions : Option ApiVersions}
    {events : List Event}
    (hguarded : Meets step (fun broker event => broker.guarded event = true)
      (new options versions) events)
    (hrun : run step (new options versions) events = some broker) : Usable broker := by
  have hnew : Sound (new options versions) := by
    refine ⟨Lock.serves_free.congr ?_ ?_, fun _ heq => (nomatch heq), fun _ hmem => (nomatch hmem),
      ?_, ?_⟩
    · exact fun _ => ⟨fun ⟨_, heq, _⟩ => (nomatch heq), False.elim⟩
    · exact fun _ => ⟨fun heq => (nomatch heq), False.elim⟩
    · intro _ _ _ connection hmem
      rw [(List.mem_replicate.mp hmem).2]
      rfl
    · intro _ connection hmem
      rw [(List.mem_replicate.mp hmem).2]
      exact ⟨rfl, rfl⟩
  have hsound : Sound broker := invariant_of_meets
    (fun _ _ _ h hok hstep => h.step hok hstep) hnew hguarded hrun
  refine ⟨fun hresolved => hsound.initialized (hsound.ready _ hresolved (Or.inl rfl)), ?_⟩
  intro hsettled hrtime hconnected
  refine hsound.initialized (hsound.ready_of_isConnected (fun phase hmem => ?_) hconnected)
  have hphase := hsettled phase hmem
  cases phase with
  | resolved | rejected _ => rfl
  | waiting | acquired | connecting _ | fetchingVersions _ _ | closing _ | authenticating =>
      cases hphase

/-- A broker without SASL whose versions are not known. -/
def seedBroker : Broker := new ⟨false, 10000, none, 30000, true⟩ none

/-- The request of `apiVersions`. -/
def apiVersionsRequest : ProtocolRequest :=
  { apiKey := apiVersionsKey, apiName := "ApiVersions", apiVersion := 3, expectResponse := true,
    requestTimeout := some 1000 }

/-- A call of `connect` until its request for the versions has been sent. -/
def fetchVersions : List Event :=
  [.connect, .resumeConnect 0 0 false, .connection 0 (.onConnect 1), .connected 0 0,
    .connection 0 (.send 0 apiVersionsRequest), .connection 0 (.resumeEncoded 0 0 (.ok none))]

/-- The versions come, and later the connection is lost. -/
def knownVersions : List Event :=
  fetchVersions ++ [.connection 0 (.response 5 ⟨0, [], 4⟩), .apiVersions 0 5 (.ok [⟨18, 0, 3⟩]),
    .authenticated 0 none, .connection 0 (.onEnd 1)]

/-- A broker that knows its versions can be used after it has connected. -/
theorem usable_knownVersions : ∃ broker, run step seedBroker knownVersions = some broker ∧
    .resolved ∈ broker.attempts ∧ Usable broker := by
  have hattempts : (run step seedBroker knownVersions).map Broker.attempts = some [.resolved] := by
    decide +kernel
  obtain ⟨broker, hrun, heq⟩ := Option.map_eq_some_iff.mp hattempts
  exact ⟨broker, hrun, heq ▸ List.mem_singleton_self _, usable_of_guarded (by decide +kernel) hrun⟩

/-- The request for the versions times out, and `connect` is called again. -/
def failedVersions : List Event :=
  fetchVersions ++ [.connection 0 (.timeoutRequest 40000 0),
    .apiVersions 0 40000 (.error (RequestQueue.timeoutError ⟨18, "ApiVersions", 3, 0⟩)),
    .connect, .resumeConnect 1 40000 false]

/-- The second call of `connect` is resolved, and requests cannot be looked up. -/
theorem unusable_failedVersions : ∃ broker, run step seedBroker failedVersions = some broker ∧
    ¬ Usable broker := by
  have hfields : (run step seedBroker failedVersions).map (fun broker =>
      (broker.attempts[1]?, broker.lookupRequest)) =
        some (some .resolved, .notInitializedLookup) := by decide +kernel
  obtain ⟨broker, hrun, heq⟩ := Option.map_eq_some_iff.mp hfields
  rw [Prod.mk.injEq] at heq
  refine ⟨broker, hrun, fun husable => ?_⟩
  have hinitialized := husable.1 (List.mem_of_getElem? heq.1)
  refine hinitialized.2 0 0 ?_
  rw [heq.2]
  rfl

end Broker

end KafkaJs.Network
