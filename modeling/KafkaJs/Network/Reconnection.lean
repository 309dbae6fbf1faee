import KafkaJs.Execution.Run
import KafkaJs.Network.Framing
import Mathlib.Logic.Function.Basic

/-!
# Framing over several sockets

A connection object outlives its sockets: `connect` makes a new one when the connection is down, and
the pool uses the same objects again. The framing fields belong to the object; neither `connect` nor
`disconnect` resets them, and `onError` and `onTimeout` leave the handlers of an authentication
exchange in place. `Reception` is what decides how bytes are received, over any sequence of sockets
and in any order of their events.

`calls_of_separate` says that the calls caused by the bytes of a socket are those of a fresh
connection as long as the fields are used by one socket at a time.
-/

namespace KafkaJs.Network

open KafkaJs.Data KafkaJs.Execution KafkaJs.Protocol

/-- `CONNECTION_STATUS`. -/
inductive ConnectionStatus where
  | connected
  | disconnecting
  | disconnected
  deriving DecidableEq, Repr

/-- `CONNECTED_STATUS`. -/
def connectedStatus : List ConnectionStatus := [.connected, .disconnecting]

/-- What uses the framing fields on behalf of a socket: bytes, together with what `fulfillRequest`
throws for a response, the start of an authentication request, or the end of the socket. -/
inductive Input where
  | data (bytes : Bytes) (throwing : Fulfillment → Option KafkaError)
  | authRequest (expectResponse : Bool)
  | ended

/-- The fields that decide how bytes are received. `socket` is the current socket; sockets are
numbered in the order of their creation. `disconnects` are the calls of `disconnect` that wait for
the pending requests. For every socket, `inputs` and `calls` record what has used the framing fields
and the calls of `fulfillRequest`; `origin` is the socket that used them last. -/
structure Reception where
  framing : Framing
  connectionStatus : ConnectionStatus
  socket : Option Nat
  sockets : Nat
  disconnects : Nat
  inputs : Nat → List Input
  calls : Nat → List Fulfillment
  origin : Nat

namespace Reception

/-- A call of `fulfillRequest` is recorded before it throws, if it does. -/
def fulfill (throwing : Fulfillment → Option KafkaError) (call : Fulfillment)
    (calls : List Fulfillment) : List Fulfillment × Option KafkaError :=
  (calls ++ [call], throwing call)

/-- An input uses the framing fields; an error of `processData` leaves the handler of the socket. -/
def use (framing : Framing) (calls : List Fulfillment) : Input → Framing × List Fulfillment
  | .data bytes throwing =>
      match Framing.processData (fulfill throwing) (fun _ calls => calls) framing bytes calls with
      | some (framing, calls, _) => (framing, calls)
      | none => (framing, calls)
  | .authRequest expectResponse => (framing.expectAuth expectResponse, calls)
  | .ended => (framing.resetAuth, calls)

/-- A fresh connection with the same inputs: its framing fields and its calls. -/
def replay (inputs : List Input) : Framing × List Fulfillment :=
  inputs.foldl (fun used input => use used.1 used.2 input) (Framing.new, [])

/-- A connection as the constructor makes it. -/
def new : Reception :=
  { framing := .new, connectionStatus := .disconnected, socket := none, sockets := 0,
    disconnects := 0, inputs := fun _ => [], calls := fun _ => [], origin := 0 }

/-- `isConnected`. -/
def isConnected (reception : Reception) : Bool := reception.connectionStatus ∈ connectedStatus

/-- An input on behalf of a socket. -/
def receive (socket : Nat) (input : Input) (reception : Reception) : Reception :=
  let used := use reception.framing (reception.calls socket) input
  { reception with
    framing := used.1
    calls := Function.update reception.calls socket used.2
    inputs := Function.update reception.inputs socket (reception.inputs socket ++ [input])
    origin := socket }

/-- `disconnect` until it waits for the pending requests. -/
def disconnect (reception : Reception) : Reception :=
  { reception with
    connectionStatus := .disconnecting
    disconnects := reception.disconnects + 1 }

/-- What happens to a connection. -/
inductive Event where
  | connect
  | onConnect (socket : Nat)
  | onData (socket : Nat) (bytes : Bytes) (throwing : Fulfillment → Option KafkaError)
  | onEnd (socket : Nat)
  | onError (socket : Nat)
  | onTimeout (socket : Nat)
  | disconnect
  | resumeDisconnect
  | sendAuthRequest (expectResponse : Bool)

/-- One event. The events of a socket come after its creation, in any order and also after another
socket has been created. -/
def step (reception : Reception) : Event → Option Reception
  | .connect =>
      if reception.isConnected then some reception
      else
        some { reception with
          socket := some reception.sockets
          sockets := reception.sockets + 1 }
  | .onConnect socket =>
      if socket < reception.sockets then some { reception with connectionStatus := .connected }
      else none
  | .onData socket bytes throwing =>
      if socket < reception.sockets then some (reception.receive socket (.data bytes throwing))
      else none
  | .onEnd socket =>
      if socket < reception.sockets then
        if reception.framing.authHandlers then some (reception.receive socket .ended).disconnect
        else some reception.disconnect
      else none
  | .onError socket | .onTimeout socket =>
      if socket < reception.sockets then some reception.disconnect else none
  | .disconnect => some reception.disconnect
  | .resumeDisconnect =>
      if 0 < reception.disconnects then
        some { reception with
          connectionStatus := .disconnected
          disconnects := reception.disconnects - 1 }
      else none
  | .sendAuthRequest expectResponse =>
      match reception.socket with
      | some socket => some (reception.receive socket (.authRequest expectResponse))
      | none => none

/-! ## Sockets that use the fields one at a time -/

/-- Nothing is buffered and no authentication exchange is in progress. -/
def Clean (framing : Framing) : Prop := framing.Same .new

/-- The fields are clean, or the socket is the one that used them last. -/
def Free (reception : Reception) (socket : Nat) : Prop :=
  Clean reception.framing ∨ reception.origin = socket

/-- An event uses the framing fields only if no other socket has left anything in them. -/
def Separate (reception : Reception) : Event → Prop
  | .onData socket _ _ => reception.Free socket
  | .onEnd socket => reception.framing.authHandlers = true → reception.Free socket
  | .sendAuthRequest _ => ∀ socket ∈ reception.socket, reception.Free socket
  | _ => True

/-- `Clean` is decidable as `Same` is. -/
instance (framing : Framing) : Decidable (Clean framing) :=
  inferInstanceAs (Decidable (framing.Same .new))

/-- `Free` is decidable as its two cases are. -/
instance (reception : Reception) (socket : Nat) : Decidable (reception.Free socket) :=
  inferInstanceAs (Decidable (_ ∨ _))

/-- `Separate` is decidable event by event. -/
instance : ∀ (reception : Reception) (event : Event), Decidable (Separate reception event)
  | reception, .onData socket _ _ => inferInstanceAs (Decidable (reception.Free socket))
  | reception, .onEnd socket =>
      inferInstanceAs (Decidable (reception.framing.authHandlers = true → reception.Free socket))
  | reception, .sendAuthRequest _ =>
      inferInstanceAs (Decidable (∀ socket ∈ reception.socket, reception.Free socket))
  | _, .connect | _, .onConnect _ | _, .onError _ | _, .onTimeout _ | _, .disconnect
  | _, .resumeDisconnect => isTrue trivial

/-- Every socket has caused the calls that a fresh connection would have made, and the fields are as
that connection has them for the socket that used them last, while the others left them clean. -/
structure Faithful (reception : Reception) : Prop where
  calls : ∀ socket, reception.calls socket = (replay (reception.inputs socket)).2
  current : reception.framing.Same (replay (reception.inputs reception.origin)).1
  others : ∀ socket, socket ≠ reception.origin → Clean (replay (reception.inputs socket)).1

/-- Framings that are the same take an input alike. -/
theorem use_same {framing other : Framing} (h : framing.Same other) (calls : List Fulfillment)
    (input : Input) :
    (use framing calls input).1.Same (use other calls input).1 ∧
      (use framing calls input).2 = (use other calls input).2 := by
  cases input with
  | data bytes throwing =>
      obtain ⟨after, after', next, error, hafter, hafter', hsame⟩ :=
        Framing.processData_same (fulfill throwing) (fun _ calls => calls) h bytes calls
      rw [use, use, hafter, hafter']
      exact ⟨hsame, rfl⟩
  | authRequest expectResponse => exact ⟨h.expectAuth expectResponse, rfl⟩
  | ended => exact ⟨h.resetAuth, rfl⟩

/-- One more input is used on the framing that the earlier ones left. -/
theorem replay_append (inputs : List Input) (input : Input) :
    replay (inputs ++ [input]) = use (replay inputs).1 (replay inputs).2 input := by
  rw [replay, List.foldl_append]
  rfl

variable {reception next : Reception}

/-- Before any socket there is nothing to be faithful to. -/
theorem faithful_new : Faithful new :=
  ⟨fun _ => rfl, Framing.Same.refl _, fun _ _ => Framing.Same.refl _⟩

/-- An input of a socket for which the fields are free. -/
theorem Faithful.receive (h : Faithful reception) {socket : Nat} (hfree : reception.Free socket)
    (input : Input) : Faithful (reception.receive socket input) := by
  -- the fields are as the socket left them
  have hsame : reception.framing.Same (replay (reception.inputs socket)).1 := by
    by_cases heq : socket = reception.origin
    · exact heq ▸ h.current
    · rcases hfree with hclean | horigin
      · exact hclean.trans (h.others socket heq).symm
      · exact absurd horigin.symm heq
  obtain ⟨hframing, hcalls⟩ := use_same hsame (reception.calls socket) input
  have hinputs : (reception.receive socket input).inputs socket =
      reception.inputs socket ++ [input] := Function.update_self ..
  refine ⟨?_, ?_, ?_⟩
  · intro other
    by_cases heq : other = socket
    · subst heq
      rw [hinputs, replay_append, ← h.calls other, ← hcalls]
      exact Function.update_self ..
    · show Function.update reception.calls socket _ other =
        (replay (Function.update reception.inputs socket _ other)).2
      rw [Function.update_of_ne heq, Function.update_of_ne heq]
      exact h.calls other
  · show (use reception.framing (reception.calls socket) input).1.Same
      (replay ((reception.receive socket input).inputs socket)).1
    rw [hinputs, replay_append, ← h.calls socket]
    exact hframing
  · intro other hother
    have hne : other ≠ socket := hother
    show Clean (replay (Function.update reception.inputs socket _ other)).1
    rw [Function.update_of_ne hne]
    by_cases heq : other = reception.origin
    · -- the socket that used the fields before left them clean
      subst heq
      rcases hfree with hclean | horigin
      · exact h.current.symm.trans hclean
      · exact absurd horigin hne
    · exact h.others other heq

/-- A step that keeps the sockets separate stays faithful. -/
theorem Faithful.step {event : Event} (h : Faithful reception)
    (hseparate : Separate reception event) (hstep : step reception event = some next) :
    Faithful next := by
  cases event with
  | connect =>
      rw [Reception.step] at hstep
      split at hstep <;> cases hstep
      · exact h
      · exact ⟨h.calls, h.current, h.others⟩
  | onConnect socket =>
      obtain ⟨-, hnext⟩ := Option.ite_none_right_eq_some.mp hstep
      cases hnext
      exact ⟨h.calls, h.current, h.others⟩
  | onData socket bytes throwing =>
      obtain ⟨-, hnext⟩ := Option.ite_none_right_eq_some.mp hstep
      cases hnext
      exact h.receive hseparate _
  | onEnd socket =>
      obtain ⟨-, hnext⟩ := Option.ite_none_right_eq_some.mp hstep
      split at hnext <;> cases hnext
      · next hauth =>
          have hreceive := h.receive (hseparate hauth) .ended
          exact ⟨hreceive.calls, hreceive.current, hreceive.others⟩
      · exact ⟨h.calls, h.current, h.others⟩
  | onError socket | onTimeout socket =>
      obtain ⟨-, hnext⟩ := Option.ite_none_right_eq_some.mp hstep
      cases hnext
      exact ⟨h.calls, h.current, h.others⟩
  | disconnect =>
      cases hstep
      exact ⟨h.calls, h.current, h.others⟩
  | resumeDisconnect =>
      obtain ⟨-, hnext⟩ := Option.ite_none_right_eq_some.mp hstep
      cases hnext
      exact ⟨h.calls, h.current, h.others⟩
  | sendAuthRequest expectResponse =>
      rw [Reception.step] at hstep
      split at hstep
      · next socket hsocket =>
          cases hstep
          exact h.receive (hseparate socket hsocket) _
      · cases hstep

/-- In every run in which the sockets use the framing fields one at a time, the calls caused by a
socket, in particular by the last one, are those that a fresh connection makes. -/
theorem calls_of_separate {events : List Event} (hseparate : Meets step Separate new events)
    (hrun : run step new events = some reception) (socket : Nat) :
    reception.calls socket = (replay (reception.inputs socket)).2 := by
  have hfaithful : Faithful reception := invariant_of_meets
    (fun _ _ _ h hok hstep => h.step hok hstep) faithful_new hseparate hrun
  exact hfaithful.calls socket

/-- A response without a payload. -/
def sampleResponse : Bytes := [0, 0, 0, 4, 0, 0, 0, 1]

/-- A socket that is closed after a whole response, and a second one whose response comes in two
pieces. -/
def wholeResponse : List Event :=
  [.connect, .onConnect 0, .onData 0 sampleResponse fun _ => none, .onEnd 0, .resumeDisconnect,
    .connect, .onConnect 1, .onData 1 (sampleResponse.take 3) fun _ => none,
    .onData 1 (sampleResponse.drop 3) fun _ => none]

/-- When the first socket closes behind a whole response, the second one's calls are those of its
own bytes. -/
theorem calls_wholeResponse :
    ∃ reception, run step new wholeResponse = some reception ∧ reception.socket = some 1 ∧
      reception.calls 1 = (replay (reception.inputs 1)).2 := by
  have hsocket : (run step new wholeResponse).map Reception.socket = some (some 1) := by decide
  obtain ⟨reception, hrun, hlast⟩ := Option.map_eq_some_iff.mp hsocket
  exact ⟨reception, hrun, hlast, calls_of_separate (by decide) hrun 1⟩

/-- A socket that is closed after the first two bytes of a response, and a second one that brings a
whole response. -/
def partialResponse : List Event :=
  [.connect, .onConnect 0, .onData 0 (sampleResponse.take 2) fun _ => none, .onEnd 0,
    .resumeDisconnect, .connect, .onConnect 1, .onData 1 sampleResponse fun _ => none]

/-- The response on the second socket is not recognised: with the bytes of the first socket in front
of it, its size is read as zero. -/
theorem calls_partialResponse :
    ∃ reception, run step new partialResponse = some reception ∧ reception.socket = some 1 ∧
      reception.calls 1 ≠ (replay (reception.inputs 1)).2 := by
  have hcalls : (run step new partialResponse).map (fun reception =>
      (reception.socket, reception.calls 1, (replay (reception.inputs 1)).2)) =
        some (some 1, [], [⟨1, [], 4⟩]) := by decide
  obtain ⟨reception, hrun, hfields⟩ := Option.map_eq_some_iff.mp hcalls
  simp only [Prod.mk.injEq] at hfields
  obtain ⟨hsocket, hnone, hreplay⟩ := hfields
  refine ⟨reception, hrun, hsocket, ?_⟩
  rw [hnone, hreplay]
  exact nofun

end Reception

end KafkaJs.Network
