import KafkaJs.Errors
import Mathlib.Data.List.Basic

/-!
# The fetch manager

`consumer/fetchManager.js` and the loop of `consumer/fetcher.js`. `start` creates one fetcher per
node and waits for all of them; the first error makes it stop the others and then either create new
fetchers or throw. `stop` clears `isRunning` of the current fetchers and waits for the `end` of
those for which it did so, and nothing else: a fetcher whose flag was cleared before is not waited
for.

Fetchers are numbered as they are created. What a fetcher awaits is a phase of it, so that every
event is one stretch of code between two awaits.
-/

namespace KafkaJs.Consumer

/-- Where the loop of a fetcher stands: its call of `fetch` was rejected at once by
`validateShouldRebalance`, or is in flight; it waits for the worker queue; it has emitted `end`. -/
inductive FetcherPhase where
  | rejected
  | fetching
  | pushing
  | ended
  deriving DecidableEq, Repr

/-- A fetcher with the node ids for which it was created. -/
structure Fetcher where
  nodeIds : List Int
  isRunning : Bool
  phase : FetcherPhase
  deriving DecidableEq, Repr

/-- Where `start` stands: not called or settled; waiting for its fetchers, of which one may have
failed; waiting for `stop` after an error, with the fetchers that `stop` waits for. -/
inductive StartPhase where
  | idle
  | waiting (failure : Option KafkaError)
  | stopping (error : KafkaError) (awaited : List Nat)
  deriving DecidableEq, Repr

/-- A call of `stop` from outside: the fetchers that it waits for, and the number of calls of
`start` before it. -/
structure StopCall where
  awaited : List Nat
  starts : Nat
  deriving DecidableEq, Repr

/-- The fetch manager with all fetchers it has created; those from `first` on are the current ones.
`nodeIds` is what `getNodeIds` returns. The last three fields are read by the specifications only:
the calls of `start`, whether `stop` has been called since, and the number of fetchers when a call
of `stop` has resolved since. -/
structure FetchManager where
  nodeIds : List Int
  fetchers : List Fetcher
  first : Nat
  startPhase : StartPhase
  stops : List StopCall
  starts : Nat
  stopRequested : Bool
  stopped : Option Nat
  deriving DecidableEq, Repr

/-- What may happen next. `available` says whether a fetch has batches that are not filtered out. -/
inductive FetchManagerEvent where
  | nodes (nodeIds : List Int)
  | start
  | fetched (fetcher : Nat) (available : Bool)
  | pushed (fetcher : Nat)
  | fails (fetcher : Nat) (error : KafkaError)
  | allEnded
  | caught
  | internalStopped
  | stop
  | stopResolved (call : Nat)
  deriving DecidableEq, Repr

/-- `KafkaJSFetcherRebalanceError`. -/
def fetcherRebalanceError : KafkaError :=
  { name := .kafkaJSFetcherRebalanceError, message := "", retriable := none }

/-- Whether `validateShouldRebalance` throws: the nodes are others than those of the fetchers. -/
def shouldRebalance (nodeIds current : List Int) : Bool :=
  (decide (nodeIds.length ≠ current.length) || nodeIds.any fun nodeId => !current.contains nodeId) &&
    !current.isEmpty

namespace FetchManager

/-- A new fetch manager. -/
def create (nodeIds : List Int) : FetchManager :=
  { nodeIds, fetchers := [], first := 0, startPhase := .idle, stops := [], starts := 0,
    stopRequested := false, stopped := none }

/-- The test of the loop of a fetcher, and the call of `fetch` if the loop goes on. -/
def turn (manager : FetchManager) (fetcher : Fetcher) : Fetcher :=
  if fetcher.isRunning then
    { fetcher with
      phase := if shouldRebalance fetcher.nodeIds manager.nodeIds then .rejected else .fetching }
  else { fetcher with phase := .ended }

/-- Replace one fetcher. -/
def setFetcher (manager : FetchManager) (fetcher : Nat) (next : Fetcher) : FetchManager :=
  { manager with fetchers := manager.fetchers.set fetcher next }

/-- `createFetchers` and the start of every new fetcher, or the error of `start`. -/
def createFetchers (manager : FetchManager) : FetchManager :=
  if manager.nodeIds.isEmpty then { manager with startPhase := .idle }
  else
    { manager with
      fetchers := manager.fetchers ++
        manager.nodeIds.map fun _ => manager.turn ⟨manager.nodeIds, true, .ended⟩
      first := manager.fetchers.length
      startPhase := .waiting none }

/-- The current fetchers that are running: those that `stop` waits for. -/
def running (manager : FetchManager) : List Nat :=
  (List.range manager.fetchers.length).filter fun fetcher =>
    decide (manager.first ≤ fetcher) && manager.fetchers[fetcher]?.any Fetcher.isRunning

/-- `stop` of every current fetcher. -/
def clearRunning (manager : FetchManager) : FetchManager :=
  { manager with
    fetchers := manager.fetchers.mapIdx fun index fetcher =>
      if manager.first ≤ index then { fetcher with isRunning := false } else fetcher }

/-- Whether the fetchers have all emitted `end`. -/
def haveEnded (manager : FetchManager) (fetchers : List Nat) : Bool :=
  fetchers.all fun fetcher => manager.fetchers[fetcher]?.all fun state => state.phase = .ended

/-- Whether a fetcher may fail with an error now. -/
def Fetcher.mayFail (fetcher : Fetcher) (error : KafkaError) : Bool :=
  match fetcher.phase with
  | .rejected => error = fetcherRebalanceError
  | .fetching | .pushing => true
  | .ended => false

/-- An error of a fetcher reaches `start`, if it is the first one of the current fetchers. -/
def fail (manager : FetchManager) (fetcher : Nat) (error : KafkaError) : FetchManager :=
  match manager.startPhase with
  | .waiting none =>
      if manager.first ≤ fetcher then { manager with startPhase := .waiting (some error) }
      else manager
  | _ => manager

/-- One event. -/
def step (manager : FetchManager) : FetchManagerEvent → Option FetchManager
  | .nodes nodeIds => some { manager with nodeIds }
  | .start =>
      if manager.startPhase = .idle then
        some { manager with
          starts := manager.starts + 1
          stopRequested := false
          stopped := none }.createFetchers
      else none
  | .fetched fetcher available =>
      match manager.fetchers[fetcher]? with
      | some state =>
          if state.phase = .fetching then
            some (manager.setFetcher fetcher
              (if state.isRunning && available then { state with phase := .pushing }
                else manager.turn state))
          else none
      | none => none
  | .pushed fetcher =>
      match manager.fetchers[fetcher]? with
      | some state =>
          if state.phase = .pushing then some (manager.setFetcher fetcher (manager.turn state))
          else none
      | none => none
  | .fails fetcher error =>
      match manager.fetchers[fetcher]? with
      | some state =>
          if Fetcher.mayFail state error then
            some ((manager.setFetcher fetcher
              { state with isRunning := false, phase := .ended }).fail fetcher error)
          else none
      | none => none
  | .allEnded =>
      if manager.startPhase = .waiting none ∧
          (manager.fetchers.drop manager.first).all fun state => state.phase = .ended then
        some { manager with startPhase := .idle }
      else none
  | .caught =>
      match manager.startPhase with
      | .waiting (some error) =>
          some { manager.clearRunning with startPhase := .stopping error manager.running }
      | _ => none
  | .internalStopped =>
      match manager.startPhase with
      | .stopping error awaited =>
          if manager.haveEnded awaited then
            if error.name = .kafkaJSFetcherRebalanceError then some manager.createFetchers
            else some { manager with startPhase := .idle }
          else none
      | _ => none
  | .stop =>
      some { manager.clearRunning with
        stops := manager.stops ++ [⟨manager.running, manager.starts⟩]
        stopRequested := true }
  | .stopResolved call =>
      match manager.stops[call]? with
      | some stopCall =>
          if manager.haveEnded stopCall.awaited then
            some { manager with
              stops := manager.stops.eraseIdx call
              stopped :=
                -- a call of `start` after this `stop` begins anew
                if stopCall.starts = manager.starts then some manager.fetchers.length
                else manager.stopped }
          else none
      | none => none

end FetchManager

end KafkaJs.Consumer
