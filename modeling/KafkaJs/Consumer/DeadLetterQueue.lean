import KafkaJs.Consumer.AtLeastOnce
import KafkaJs.Data.InsertionMap

/-!
# The dead letter queue

`consumer/deadLetterQueue.js` wraps a handler of single messages: it calls the handler again when it
throws, and when no attempt is left sends a message to another topic instead of throwing.

`DeadLettering` is the runner of `Runner` with a wrapped handler. A call of the wrapped handler goes
through the phases of `Phase`, between which anything may happen to the consumer. `Settled` is what
a call that returns has done, and `deadLettered_of_run` concludes that offsets move past a message
only after the handler has succeeded on it, or the other topic has it. As in `Runner`, nothing seeks
and no offset is reset. Where the producer does not fail, no call goes on for ever:
`settles_of_run`.
-/

namespace KafkaJs.Consumer.DeadLetterQueue

open Data Execution

/-- An error object that a handler throws. -/
structure HandlerError where
  name : String
  message : String
  deriving DecidableEq, Repr

/-- The value of a header. -/
inductive HeaderValue where
  | bytes (value : List UInt8)
  | text (value : String)
  deriving DecidableEq, Repr

/-- The argument of an `eachMessage` handler. Messages of old formats have no headers. -/
structure EachMessagePayload where
  topic : String
  partition : Int
  key : Option (List UInt8)
  value : Option (List UInt8)
  offset : String
  timestamp : String
  headers : Option (InsertionMap String HeaderValue)

/-- A message as the producer takes it. -/
structure DLQMessage where
  key : Option (List UInt8)
  value : Option (List UInt8)
  headers : InsertionMap String HeaderValue

/-- What is sent to the other topic. -/
structure ProducerRecord where
  topic : String
  messages : List DLQMessage

/-- The headers that are added, which need the error. -/
def dlqHeaders (lastError : HandlerError) (payload : EachMessagePayload) :
    List (String × HeaderValue) :=
  [("dlq.original.topic", .text payload.topic),
    ("dlq.original.partition", .text (toString payload.partition)),
    ("dlq.original.offset", .text payload.offset),
    ("dlq.original.timestamp", .text payload.timestamp),
    ("dlq.error.message", .text lastError.message),
    ("dlq.error.name", .text lastError.name)]

/-- The error of reading a property of `undefined`. -/
def undefinedError : HandlerError :=
  { name := "TypeError", message := "Cannot read properties of undefined (reading 'message')" }

/-- The message that is sent without `createDLQMessage`. -/
def defaultDLQMessage (lastError : Option HandlerError) (payload : EachMessagePayload) :
    Except HandlerError DLQMessage :=
  match lastError with
  | none => .error undefinedError
  | some error =>
      .ok { key := payload.key
            value := payload.value
            headers := (dlqHeaders error payload).foldl
              (fun headers entry => headers.set entry.1 entry.2) (payload.headers.getD .empty) }

/-- The options. `payload` is what the handler is given for a message of the log, and
`onOriginalMessageFailed` whether there is such a callback. -/
structure Options where
  topic : String
  maxRetries : Int
  createDLQMessage : Option (Option HandlerError → EachMessagePayload →
    Except HandlerError DLQMessage)
  onOriginalMessageFailed : Bool
  payload : Message → EachMessagePayload

/-- The message for the other topic. -/
def Options.dlqMessage (options : Options) (lastError : Option HandlerError) (message : Message) :
    Except HandlerError DLQMessage :=
  (options.createDLQMessage.getD defaultDLQMessage) lastError (options.payload message)

/-- Where a call of the wrapped handler is. -/
inductive Phase where
  /-- The handler has been called. -/
  | attempt (attempt : Nat)
  /-- `producer.send` has been called. -/
  | sending (dlqMessage : DLQMessage)
  /-- `onOriginalMessageFailed` has been called. -/
  | reporting (dlqMessage : DLQMessage)
  /-- The promise is fulfilled. -/
  | returning (dlqMessage : Option DLQMessage)
  /-- The promise is rejected. -/
  | throwing

/-- A call of the wrapped handler that has returned, with the errors of the handler and what was
sent. -/
structure Call where
  message : Message
  errors : List HandlerError
  dlqMessage : Option DLQMessage

/-- The consumer and the call in progress. `errors` are those of the call so far, `sent` what the
producer has sent, and `calls` the calls that have returned. -/
structure DeadLettering where
  consumer : State
  phase : Phase
  errors : List HandlerError
  sent : List ProducerRecord
  calls : List Call

/-- What may happen next. -/
inductive DLQEvent where
  /-- An event of the consumer other than that its handler is done. -/
  | consumer (event : Event)
  | handlerReturns
  | handlerThrows (error : HandlerError)
  | sent
  | sendFails
  | reported
  | reportFails
  /-- The runner goes on after the wrapped handler. -/
  | settled

/-- The consumer joined the group. -/
def DeadLettering.initial (committedOffset : Int) : DeadLettering :=
  ⟨State.initial committedOffset, .throwing, [], [], []⟩

/-- The message of the call in progress. -/
def inHandler (state : State) : Option Message :=
  match state.todo with
  | .handler message _ :: _ => some message
  | _ => none

/-- The end of the loop over the attempts. -/
def giveUp (options : Options) (message : Message) (errors : List HandlerError) : Phase :=
  match options.dlqMessage errors.getLast? message with
  | .ok dlqMessage => .sending dlqMessage
  | .error _ => .throwing

/-- The loop over the attempts, from `attempt` on. -/
def tryAgain (options : Options) (message : Message) (errors : List HandlerError) (attempt : Nat) :
    Phase :=
  if (attempt : Int) ≤ options.maxRetries then .attempt attempt
  else giveUp options message errors

/-- The consumer goes on. Where it comes to a message, it calls the wrapped handler. -/
def enter (options : Options) (state : DeadLettering) (consumer : State) : DeadLettering :=
  match inHandler state.consumer, inHandler consumer with
  | none, some message =>
      { state with consumer, phase := tryAgain options message [] 0, errors := [] }
  | _, _ => { state with consumer }

/-- What a wrapped handler waits for, or that it has an outcome. -/
def advance (options : Options) (state : DeadLettering) (message : Message) :
    Phase → DLQEvent → Option DeadLettering
  | .attempt _, .handlerReturns => some { state with phase := .returning none }
  | .attempt attempt, .handlerThrows error =>
      let errors := state.errors ++ [error]
      some { state with errors, phase := tryAgain options message errors (attempt + 1) }
  | .sending dlqMessage, .sent =>
      some { state with
        sent := state.sent ++ [⟨options.topic, [dlqMessage]⟩]
        phase := if options.onOriginalMessageFailed then .reporting dlqMessage
          else .returning (some dlqMessage) }
  | .sending _, .sendFails => some { state with phase := .throwing }
  | .reporting dlqMessage, .reported => some { state with phase := .returning (some dlqMessage) }
  | .reporting _, .reportFails => some { state with phase := .throwing }
  | _, _ => none

/-- One event. -/
def step (config : Config) (options : Options) (state : DeadLettering) :
    DLQEvent → Option DeadLettering
  | .consumer event =>
      if event = .handlerReturns ∨ event = .handlerThrows then none
      else (Consumer.step config state.consumer event).map (enter options state)
  | .settled =>
      match inHandler state.consumer, state.phase with
      | some message, .returning dlqMessage =>
          (Consumer.step config state.consumer .handlerReturns).map fun consumer =>
            { state with
              consumer
              calls := state.calls ++ [⟨message, state.errors, dlqMessage⟩] }
      | some _, .throwing =>
          (Consumer.step config state.consumer .handlerThrows).map fun consumer =>
            { state with consumer }
      | _, _ => none
  | event =>
      match inHandler state.consumer with
      | some message => advance options state message state.phase event
      | none => none

/-! ## What a call does -/

/-- How often the handler is called at most. -/
def Options.attempts (options : Options) : Nat := (options.maxRetries + 1).toNat

/-- The handler has failed each time, and the other topic has the message. -/
structure DeadLettered (options : Options) (sent : List ProducerRecord) (message : Message)
    (errors : List HandlerError) (dlqMessage : DLQMessage) : Prop where
  attempts : errors.length = options.attempts
  built : options.dlqMessage errors.getLast? message = .ok dlqMessage
  sent : ⟨options.topic, [dlqMessage]⟩ ∈ sent

/-- The handler has succeeded within its attempts, or the other topic has the message. -/
def Settled (options : Options) (sent : List ProducerRecord) (message : Message)
    (errors : List HandlerError) : Option DLQMessage → Prop
  | none => errors.length < options.attempts
  | some dlqMessage => DeadLettered options sent message errors dlqMessage

/-- What has been done in a phase of a call. -/
def InPhase (options : Options) (sent : List ProducerRecord) (message : Message)
    (errors : List HandlerError) : Phase → Prop
  | .attempt attempt => errors.length = attempt ∧ attempt < options.attempts
  | .sending dlqMessage => errors.length = options.attempts ∧
      options.dlqMessage errors.getLast? message = .ok dlqMessage
  | .reporting dlqMessage => DeadLettered options sent message errors dlqMessage
  | .returning dlqMessage => Settled options sent message errors dlqMessage
  | .throwing => True

variable {options : Options} {sent : List ProducerRecord} {message : Message}
  {errors : List HandlerError}

/-- The phase after a failed attempt fits the errors so far. -/
theorem inPhase_tryAgain (h : errors.length ≤ options.attempts) :
    InPhase options sent message errors (tryAgain options message errors errors.length) := by
  unfold tryAgain
  split
  · next hattempt =>
      refine ⟨rfl, ?_⟩
      unfold Options.attempts
      omega
  · next hnone =>
      have hall : errors.length = options.attempts := by
        unfold Options.attempts at h ⊢
        omega
      unfold giveUp
      split
      · next hbuilt => exact ⟨hall, hbuilt⟩
      · trivial

/-- What has been sent stays sent. -/
theorem DeadLettered.mono {dlqMessage : DLQMessage}
    (h : DeadLettered options sent message errors dlqMessage) (more : List ProducerRecord) :
    DeadLettered options (sent ++ more) message errors dlqMessage :=
  ⟨h.attempts, h.built, List.mem_append_left _ h.sent⟩

/-- A settled call stays settled. -/
theorem Settled.mono {dlqMessage : Option DLQMessage}
    (h : Settled options sent message errors dlqMessage) (more : List ProducerRecord) :
    Settled options (sent ++ more) message errors dlqMessage := by
  cases dlqMessage with
  | none => exact h
  | some dlqMessage => exact DeadLettered.mono h more

/-! ## The invariant -/

/-- The calls that have returned are those that the consumer takes for handled, each of them is
settled, and the one in progress is in its phase. -/
structure Kept (config : Config) (options : Options) (state : DeadLettering) : Prop where
  started : Started state.consumer
  safe : Safe config.log state.consumer
  handled : state.calls.map Call.message = state.consumer.handled
  settled : ∀ call ∈ state.calls,
    Settled options state.sent call.message call.errors call.dlqMessage
  phase : ∀ message, inHandler state.consumer = some message →
    InPhase options state.sent message state.errors state.phase

/-! ## Events of the consumer -/

section ConsumerEvent

variable {config : Config} {state next : State} {event : Event}

/-- The runner waits for a handler if that is the next thing to do. -/
theorem inHandler_eq_some_iff :
    inHandler state = some message ↔ ∃ rest todo, state.todo = .handler message rest :: todo := by
  unfold inHandler
  split
  · next other rest todo htodo =>
      rw [htodo]
      simp
  · next hnone =>
      constructor
      · intro hsome
        cases hsome
      · rintro ⟨rest, todo, htodo⟩
        exact absurd htodo (hnone message rest todo)

/-- Taking up a batch handles nothing. -/
theorem handled_handleBatch (batch : Batch) :
    (state.handleBatch batch).handled = state.handled := by
  unfold State.handleBatch
  split
  · dsimp only
    split
    · rfl
    · split <;> rfl
  · rfl

/-- An auto-commit handles nothing. -/
theorem handled_autoCommitOffsets (todo : List Task) :
    (state.autoCommitOffsets config todo).handled = state.handled := by
  unfold State.autoCommitOffsets
  rcases sendCommit_cases config with hnone | ⟨offset, -, hsent⟩
  · rw [hnone]
    rfl
  · rw [hsent]
    rfl

/-- Only the handler itself is done with a message. -/
theorem handled_of_fires (h : Fires config state event next) (hreturns : event ≠ .handlerReturns) :
    next.handled = state.handled := by
  cases h with
  | handlerReturns => exact absurd rfl hreturns
  | handleBatch => exact handled_handleBatch _
  | commit => exact handled_autoCommitOffsets _
  | _ => rfl

/-- The consumer waits for the handler, whatever else happens. -/
theorem inHandler_of_fires (h : Fires config state event next) (hreturns : event ≠ .handlerReturns)
    (hthrows : event ≠ .handlerThrows) (hin : inHandler state = some message) :
    inHandler next = some message := by
  rw [inHandler_eq_some_iff] at hin ⊢
  obtain ⟨rest, todo, htodo⟩ := hin
  cases h with
  | handlerReturns => exact absurd rfl hreturns
  | handlerThrows => exact absurd rfl hthrows
  | commit hother htask =>
      cases htodo.symm.trans hother
      simp at htask
  | messagesEnd hother
  | nextMessage hother
  | checkPaused hother
  | heartbeatOk hother
  | heartbeatRebalancing hother
  | heartbeatFailed hother
  | commitUnnecessary hother
  | commitSucceeds hother
  | commitFails hother
  | handleBatch hother =>
      cases htodo.symm.trans hother
  | _ => exact ⟨rest, todo, htodo⟩

end ConsumerEvent

/-! ## Whole runs -/

section Run

variable {config : Config} {state next : DeadLettering}

/-- At first there is no call. -/
theorem kept_initial (committedOffset : Int) :
    Kept config options (DeadLettering.initial committedOffset) where
  started := (@safe_initial config.log committedOffset).1
  safe := (safe_initial committedOffset).2
  handled := rfl
  settled _ hmem := by cases hmem
  phase _ hin := by cases hin

/-- An event of the consumer. -/
theorem Kept.consumer (h : Kept config options state) {event : Event} {consumer : State}
    (hreturns : event ≠ .handlerReturns) (hthrows : event ≠ .handlerThrows)
    (hstep : Consumer.step config state.consumer event = some consumer) :
    Kept config options (enter options state consumer) := by
  have hfires := fires_of_step hstep
  obtain ⟨hstarted, hsafe⟩ := safe_step ⟨h.started, h.safe⟩ hfires
  have hhandled := handled_of_fires hfires hreturns
  unfold enter
  split
  · next message _ hin =>
      refine ⟨hstarted, hsafe, h.handled.trans hhandled.symm, h.settled, ?_⟩
      intro other hother
      cases hin.symm.trans hother
      exact inPhase_tryAgain (Nat.zero_le _)
  · next hother =>
      refine ⟨hstarted, hsafe, h.handled.trans hhandled.symm, h.settled, ?_⟩
      intro message hmessage
      cases hin : inHandler state.consumer with
      | none => exact absurd hmessage (hother message hin)
      | some waiting =>
          have hsame := inHandler_of_fires hfires hreturns hthrows hin
          cases hmessage.symm.trans hsame
          exact h.phase _ hin

/-- The call in progress goes on, in a phase that fits what has been done. -/
theorem Kept.goOn (h : Kept config options state) (hin : inHandler state.consumer = some message)
    {errors : List HandlerError} {phase : Phase} (more : List ProducerRecord)
    (hphase : InPhase options (state.sent ++ more) message errors phase) :
    Kept config options { state with errors, phase, sent := state.sent ++ more } where
  started := h.started
  safe := h.safe
  handled := h.handled
  settled call hcall := (h.settled call hcall).mono more
  phase other hother := by
    cases hin.symm.trans hother
    exact hphase

/-- Another phase that fits the errors. -/
theorem Kept.setPhase (h : Kept config options state)
    (hin : inHandler state.consumer = some message) {errors : List HandlerError} {phase : Phase}
    (hphase : InPhase options state.sent message errors phase) :
    Kept config options { state with errors, phase } := by
  rw [← List.append_nil state.sent] at hphase
  have hkept := h.goOn hin [] hphase
  rwa [List.append_nil] at hkept

/-- An outcome for the call in progress. -/
theorem Kept.advance (h : Kept config options state) (hin : inHandler state.consumer = some message)
    {event : DLQEvent} (hstep : advance options state message state.phase event = some next) :
    Kept config options next := by
  have hphase := h.phase message hin
  unfold DeadLetterQueue.advance at hstep
  split at hstep
  · next hattempt =>
      cases hstep
      rw [hattempt] at hphase
      obtain ⟨hlength, hlt⟩ := hphase
      refine h.setPhase hin ?_
      show state.errors.length < options.attempts
      omega
  · next attempt error hattempt =>
      cases hstep
      rw [hattempt] at hphase
      obtain ⟨hlength, hlt⟩ := hphase
      refine h.setPhase hin ?_
      -- the error that was just caught is counted before the next attempt is decided on
      have hall : (state.errors ++ [error]).length = attempt + 1 := by
        rw [List.length_append, hlength, List.length_singleton]
      rw [← hall]
      exact inPhase_tryAgain (by omega)
  · next dlqMessage hsending =>
      cases hstep
      rw [hsending] at hphase
      have hsent : DeadLettered options (state.sent ++ [⟨options.topic, [dlqMessage]⟩]) message
          state.errors dlqMessage :=
        ⟨hphase.1, hphase.2, List.mem_append_right _ (List.mem_singleton_self _)⟩
      refine h.goOn hin _ ?_
      split
      · exact hsent
      · exact hsent
  · cases hstep
    exact h.setPhase hin trivial
  · next dlqMessage hreporting =>
      cases hstep
      rw [hreporting] at hphase
      exact h.setPhase hin hphase
  · cases hstep
    exact h.setPhase hin trivial
  · cases hstep

/-- The runner takes the message of a call that has returned for handled. -/
theorem Kept.returns (h : Kept config options state) (hin : inHandler state.consumer = some message)
    {dlqMessage : Option DLQMessage} (hreturning : state.phase = .returning dlqMessage)
    {consumer : State}
    (hstep : Consumer.step config state.consumer .handlerReturns = some consumer) :
    Kept config options
      { state with consumer, calls := state.calls ++ [⟨message, state.errors, dlqMessage⟩] } := by
  have hphase := h.phase message hin
  rw [hreturning] at hphase
  have hfires := fires_of_step hstep
  obtain ⟨hstarted, hsafe⟩ := safe_step ⟨h.started, h.safe⟩ hfires
  obtain ⟨rest, todo, htodo⟩ := inHandler_eq_some_iff.mp hin
  cases hfires with
  | handlerReturns hsame =>
      cases htodo.symm.trans hsame
      refine ⟨hstarted, hsafe, ?_, fun call hcall => ?_, fun other hother => ?_⟩
      · rw [List.map_append, h.handled]
        rfl
      · rcases List.mem_append.mp hcall with hold | hnew
        · exact h.settled call hold
        · rw [List.mem_singleton.mp hnew]
          exact hphase
      · cases hother

/-- After a call that has thrown, it leaves the batch. -/
theorem Kept.throws (h : Kept config options state) {consumer : State}
    (hstep : Consumer.step config state.consumer .handlerThrows = some consumer) :
    Kept config options { state with consumer } := by
  have hfires := fires_of_step hstep
  obtain ⟨hstarted, hsafe⟩ := safe_step ⟨h.started, h.safe⟩ hfires
  have hhandled := handled_of_fires hfires (by simp)
  cases hfires with
  | handlerThrows hsame =>
      refine ⟨hstarted, hsafe, h.handled.trans hhandled.symm, h.settled, fun other hother => ?_⟩
      cases hother

/-- Every event keeps the invariant. -/
theorem Kept.step (h : Kept config options state) {event : DLQEvent}
    (hstep : step config options state event = some next) : Kept config options next := by
  have hgoesOn : ∀ {event : DLQEvent}, (match inHandler state.consumer with
      | some message => DeadLetterQueue.advance options state message state.phase event
      | none => none) = some next → Kept config options next := by
    intro event hadvance
    split at hadvance
    · next message hin => exact h.advance hin hadvance
    · cases hadvance
  cases event with
  | consumer event =>
      obtain ⟨hother, hmap⟩ := Option.ite_none_left_eq_some.mp hstep
      obtain ⟨consumer, hconsumer, rfl⟩ := Option.map_eq_some_iff.mp hmap
      obtain ⟨hreturns, hthrows⟩ := not_or.mp hother
      exact h.consumer hreturns hthrows hconsumer
  | settled =>
      simp only [DeadLetterQueue.step] at hstep
      split at hstep
      · next message dlqMessage hin hreturning =>
          obtain ⟨consumer, hconsumer, rfl⟩ := Option.map_eq_some_iff.mp hstep
          exact h.returns hin hreturning hconsumer
      · next message hin hthrowing =>
          obtain ⟨consumer, hconsumer, rfl⟩ := Option.map_eq_some_iff.mp hstep
          exact h.throws hconsumer
      · cases hstep
  | _ => exact hgoesOn hstep

/-- In every run, the offsets that the consumer moves on to and commits come after a message only if
a call of the wrapped handler has settled it: the handler has succeeded in one of its attempts, or
has failed in all of them, and the other topic has the message that was made for it. -/
theorem deadLettered_of_run {committedOffset : Int} {events : List DLQEvent}
    (hrun : run (step config options) (.initial committedOffset) events = some state) :
    ∀ offset, offset ∈ state.consumer.resolvedOffset ∨ offset ∈ state.consumer.autoCommitted →
      ∀ record, Visible config.log state.consumer record → record.offset < offset.value →
        ∃ call ∈ state.calls, call.message = record ∧
          Settled options state.sent call.message call.errors call.dlqMessage := by
  have hkept : Kept config options state :=
    invariant_of_run (fun _ _ _ h hstep => h.step hstep) (kept_initial committedOffset) hrun
  intro offset hoffset record hvisible hbefore
  have hdone : Done config.log state.consumer offset.value :=
    hoffset.elim (hkept.safe.resolved offset) (hkept.safe.autoCommitted offset)
  have hhandled := hdone record hvisible hbefore
  rw [← hkept.handled] at hhandled
  obtain ⟨call, hcall, hmessage⟩ := List.mem_map.mp hhandled
  exact ⟨call, hcall, hmessage, hkept.settled call hcall⟩

end Run

/-! ## Where nothing else fails -/

section Healthy

variable {config : Config} {state next : DeadLettering}

/-- When all attempts have failed, a message can be made. -/
def Options.Builds (options : Options) : Prop :=
  ∀ (errors : List HandlerError) (message : Message), errors.length = options.attempts →
    ∃ dlqMessage, options.dlqMessage errors.getLast? message = .ok dlqMessage

/-- Without `createDLQMessage` it can, if the handler is called at all. -/
theorem builds_default (hdefault : options.createDLQMessage = none)
    (hretries : 0 ≤ options.maxRetries) : options.Builds := by
  intro errors message hall
  have hne : errors ≠ [] := List.ne_nil_of_length_pos (by
    rw [hall, Options.attempts]
    omega)
  rw [Options.dlqMessage, hdefault, Option.getD_none, List.getLast?_eq_some_getLast hne]
  exact ⟨_, rfl⟩

/-- The producer or the callback fails. -/
def DLQEvent.fails : DLQEvent → Bool
  | .sendFails | .reportFails => true
  | _ => false

/-- The runner goes on after a call. -/
def DLQEvent.isSettled : DLQEvent → Bool
  | .settled => true
  | _ => false

/-- The call in progress will return. -/
def Returns (state : DeadLettering) : Prop :=
  ∀ message, inHandler state.consumer = some message → state.phase ≠ .throwing

/-- At first no call throws. -/
theorem returns_initial (committedOffset : Int) :
    Returns (DeadLettering.initial committedOffset) := fun _ hin => by cases hin

/-- Where a dead letter message can be made, a failed attempt does not throw. -/
theorem tryAgain_ne_throwing (hbuilds : options.Builds) (h : errors.length ≤ options.attempts) :
    tryAgain options message errors errors.length ≠ .throwing := by
  unfold tryAgain
  split
  · simp
  · next hnone =>
      have hall : errors.length = options.attempts := by
        unfold Options.attempts at h ⊢
        omega
      obtain ⟨dlqMessage, hbuilt⟩ := hbuilds errors message hall
      rw [giveUp, hbuilt]
      simp

/-- A call that begins does not throw. -/
theorem returns_enter (h : Returns state) (hbuilds : options.Builds) (consumer : State) :
    Returns (enter options state consumer) := by
  intro message hmessage
  unfold enter at hmessage ⊢
  split at hmessage
  · exact @tryAgain_ne_throwing options _ [] hbuilds (Nat.zero_le _)
  · next hother =>
      cases hin : inHandler state.consumer with
      | none => exact absurd hmessage (hother message hin)
      | some waiting => exact h waiting hin

/-- A call does not throw while the producer and the callback do not fail. -/
theorem returns_advance (hkept : Kept config options state) (hbuilds : options.Builds)
    (hin : inHandler state.consumer = some message) {event : DLQEvent}
    (hhealthy : event.fails = false)
    (hstep : advance options state message state.phase event = some next) : Returns next := by
  have hphase := hkept.phase message hin
  intro other hother
  unfold advance at hstep
  split at hstep
  · cases hstep
    simp
  · next attempt error hattempt =>
      cases hstep
      rw [hattempt] at hphase
      obtain ⟨hlength, hlt⟩ := hphase
      have hall : (state.errors ++ [error]).length = attempt + 1 := by
        rw [List.length_append, hlength, List.length_singleton]
      show tryAgain options message _ (attempt + 1) ≠ _
      rw [← hall]
      -- the attempts and the errors are in step, so the last error is there to build the message
      -- from
      exact tryAgain_ne_throwing hbuilds (by omega)
  · cases hstep
    show (if _ then _ else _) ≠ _
    split <;> simp
  · cases hhealthy
  · cases hstep
    simp
  · cases hhealthy
  · cases hstep

/-- Neither the consumer nor the calls that are over change while a call goes on. -/
theorem frame_advance {event : DLQEvent} {phase : Phase}
    (hstep : advance options state message phase event = some next) :
    next.consumer = state.consumer ∧ next.calls = state.calls := by
  unfold advance at hstep
  split at hstep <;> cases hstep <;> exact ⟨rfl, rfl⟩

/-- Where nothing else fails, an event does not make a call throw, and a call that the runner goes
on after has returned. -/
theorem returns_step (hkept : Kept config options state) (h : Returns state)
    (hbuilds : options.Builds) {event : DLQEvent} (hhealthy : event.fails = false)
    (hstep : step config options state event = some next) :
    Returns next ∧ next.calls.length = state.calls.length + if event.isSettled then 1 else 0 := by
  have hgoesOn : ∀ {event : DLQEvent}, event.fails = false →
      (match inHandler state.consumer with
      | some message => advance options state message state.phase event
      | none => none) = some next →
        Returns next ∧ next.calls.length = state.calls.length + 0 := by
    intro event hhealthy hadvance
    split at hadvance
    · next message hin =>
        exact ⟨returns_advance hkept hbuilds hin hhealthy hadvance, by
          rw [(frame_advance hadvance).2]
          rfl⟩
    · cases hadvance
  cases event with
  | consumer event =>
      obtain ⟨hother, hmap⟩ := Option.ite_none_left_eq_some.mp hstep
      obtain ⟨consumer, hconsumer, rfl⟩ := Option.map_eq_some_iff.mp hmap
      refine ⟨returns_enter h hbuilds consumer, ?_⟩
      unfold enter
      split <;> rfl
  | settled =>
      simp only [step] at hstep
      split at hstep
      · next message dlqMessage hin hreturning =>
          obtain ⟨consumer, hconsumer, rfl⟩ := Option.map_eq_some_iff.mp hstep
          refine ⟨fun other hother => ?_, List.length_append⟩
          show state.phase ≠ _
          rw [hreturning]
          simp
      · next message hin hthrowing => exact absurd hthrowing (h message hin)
      · cases hstep
  | _ => exact hgoesOn hhealthy hstep

/-! ### How long a call takes -/

/-- An event of a call: the outcome of what it waits for. -/
def DLQEvent.isOutcome : DLQEvent → Bool
  | .consumer _ | .settled => false
  | _ => true

/-- How many outcomes a phase has still to come at most. -/
def Options.outcomesLeft (options : Options) : Phase → Nat
  | .attempt attempt => options.attempts - attempt + 2
  | .sending _ => 2
  | .reporting _ => 1
  | .returning _ | .throwing => 0

/-- How many outcomes there are at most until the runner goes on after a call. -/
def DeadLettering.outcomesLeft (options : Options) (state : DeadLettering) : Nat :=
  match inHandler state.consumer with
  | some _ => options.outcomesLeft state.phase
  | none => options.attempts + 2

/-- The outcomes that are left while the runner waits for a handler. -/
theorem outcomesLeft_of_inHandler (h : inHandler state.consumer = some message) :
    state.outcomesLeft options = options.outcomesLeft state.phase := by
  rw [DeadLettering.outcomesLeft, h]

/-- At the end of the loop there are the message to send and the report left. -/
theorem outcomesLeft_tryAgain (errors : List HandlerError) (attempt : Nat) :
    options.outcomesLeft (tryAgain options message errors attempt) ≤
      options.attempts - attempt + 2 := by
  unfold tryAgain
  split
  · exact le_refl _
  · unfold giveUp
    split
    · exact Nat.le_add_left _ _
    · exact Nat.zero_le _

/-- A call never has more outcomes left than one that begins. -/
theorem outcomesLeft_le (state : DeadLettering) :
    state.outcomesLeft options ≤ options.attempts + 2 := by
  unfold DeadLettering.outcomesLeft
  split
  · unfold Options.outcomesLeft
    split <;> omega
  · exact le_refl _

/-- Each outcome leaves fewer. -/
theorem outcomesLeft_advance (hkept : Kept config options state)
    (hin : inHandler state.consumer = some message) {event : DLQEvent}
    (hstep : advance options state message state.phase event = some next) :
    next.outcomesLeft options < state.outcomesLeft options := by
  have hphase := hkept.phase message hin
  have hnext : inHandler next.consumer = some message := by
    rw [(frame_advance hstep).1]
    exact hin
  rw [outcomesLeft_of_inHandler hin, outcomesLeft_of_inHandler hnext]
  unfold advance at hstep
  split at hstep
  · next attempt hattempt =>
      cases hstep
      rw [hattempt]
      exact Nat.lt_of_lt_of_le (by decide : 0 < 2) (Nat.le_add_left _ _)
  · next attempt error hattempt =>
      cases hstep
      rw [hattempt] at hphase ⊢
      -- an attempt that is left over makes room for the next one
      have hlt := hphase.2
      refine (outcomesLeft_tryAgain (state.errors ++ [error]) (attempt + 1)).trans_lt ?_
      show options.attempts - (attempt + 1) + 2 < options.attempts - attempt + 2
      omega
  · next dlqMessage hsending =>
      cases hstep
      rw [hsending]
      show options.outcomesLeft (if _ then _ else _) < 2
      split
      · exact (by decide : 1 < 2)
      · exact (by decide : 0 < 2)
  · next hsending =>
      cases hstep
      rw [hsending]
      exact (by decide : 0 < 2)
  · next hreporting =>
      cases hstep
      rw [hreporting]
      exact (by decide : 0 < 1)
  · next hreporting =>
      cases hstep
      rw [hreporting]
      exact (by decide : 0 < 1)
  · cases hstep

/-- The consumer adds no outcomes, also where it comes to the next message. -/
theorem outcomesLeft_enter {event : Event} {consumer : State} (hreturns : event ≠ .handlerReturns)
    (hthrows : event ≠ .handlerThrows)
    (hstep : Consumer.step config state.consumer event = some consumer) :
    (enter options state consumer).outcomesLeft options ≤ state.outcomesLeft options := by
  cases hin : inHandler state.consumer with
  | none =>
      refine (outcomesLeft_le _).trans (le_of_eq ?_)
      rw [DeadLettering.outcomesLeft, hin]
  | some message =>
      have hsame := inHandler_of_fires (fires_of_step hstep) hreturns hthrows hin
      have henter : enter options state consumer = { state with consumer } := by
        rw [enter, hin]
      rw [henter, outcomesLeft_of_inHandler hin, @outcomesLeft_of_inHandler options message _ hsame]

/-- As long as the runner does not go on, the outcomes use up what is left. -/
theorem outcomesLeft_step (hkept : Kept config options state) {event : DLQEvent}
    (hsettled : event.isSettled = false) (hstep : step config options state event = some next) :
    next.outcomesLeft options + (if event.isOutcome then 1 else 0) ≤
      state.outcomesLeft options := by
  have hgoesOn : ∀ {event : DLQEvent}, (match inHandler state.consumer with
      | some message => advance options state message state.phase event
      | none => none) = some next →
        next.outcomesLeft options + 1 ≤ state.outcomesLeft options := by
    intro event hadvance
    split at hadvance
    · next message hin => exact outcomesLeft_advance hkept hin hadvance
    · cases hadvance
  cases event with
  | consumer event =>
      obtain ⟨hother, hmap⟩ := Option.ite_none_left_eq_some.mp hstep
      obtain ⟨consumer, hconsumer, rfl⟩ := Option.map_eq_some_iff.mp hmap
      obtain ⟨hreturns, hthrows⟩ := not_or.mp hother
      exact outcomesLeft_enter hreturns hthrows hconsumer
  | settled => cases hsettled
  | _ => exact hgoesOn hstep

/-- While the runner waits for a call there are few outcomes. -/
theorem outcomesLeft_run (hkept : Kept config options state) {events : List DLQEvent}
    (hsettled : ∀ event ∈ events, event.isSettled = false)
    (hrun : run (step config options) state events = some next) :
    next.outcomesLeft options + events.countP DLQEvent.isOutcome ≤
      state.outcomesLeft options := by
  induction events generalizing state with
  | nil =>
      cases hrun
      exact le_refl _
  | cons event events ih =>
      obtain ⟨middle, hstep, hrest⟩ := run_cons_eq_some.mp hrun
      obtain ⟨hfirst, hothers⟩ := List.forall_mem_cons.mp hsettled
      have hone := outcomesLeft_step hkept hfirst hstep
      have hmore := ih (hkept.step hstep) hothers hrest
      rw [List.countP_cons]
      omega

/-- What a call waits for may come: an outcome that is no failure of the producer or the callback,
or the runner goes on. -/
theorem goesOn_of_inHandler (h : Returns state) (hin : inHandler state.consumer = some message) :
    ∃ event next, event.fails = false ∧ (event.isOutcome ∨ event.isSettled) ∧
      step config options state event = some next := by
  -- an outcome is for the call that the runner waits for
  have hadvance : ∀ event, event.isOutcome →
      step config options state event = advance options state message state.phase event := by
    intro event houtcome
    cases event with
    | consumer | settled => cases houtcome
    | _ => simp only [step, hin]
  cases hphase : state.phase with
  | attempt attempt =>
      refine ⟨.handlerReturns, { state with phase := .returning none }, rfl, .inl rfl, ?_⟩
      rw [hadvance _ rfl, hphase]
      rfl
  | sending dlqMessage =>
      refine ⟨.sent, { state with
        sent := state.sent ++ [⟨options.topic, [dlqMessage]⟩]
        phase := if options.onOriginalMessageFailed then .reporting dlqMessage
          else .returning (some dlqMessage) }, rfl, .inl rfl, ?_⟩
      rw [hadvance _ rfl, hphase]
      rfl
  | reporting dlqMessage =>
      refine ⟨.reported, { state with phase := .returning (some dlqMessage) }, rfl, .inl rfl, ?_⟩
      rw [hadvance _ rfl, hphase]
      rfl
  | returning dlqMessage =>
      obtain ⟨rest, todo, htodo⟩ := inHandler_eq_some_iff.mp hin
      obtain ⟨consumer, hconsumer⟩ : ∃ consumer,
          Consumer.step config state.consumer .handlerReturns = some consumer :=
        Option.isSome_iff_exists.mp (by simp only [Consumer.step, htodo, Option.isSome_some])
      refine ⟨.settled, { state with
        consumer
        calls := state.calls ++ [⟨message, state.errors, dlqMessage⟩] }, rfl, .inr rfl, ?_⟩
      simp only [step, hin, hphase, hconsumer, Option.map_some]
  | throwing => exact absurd hphase (h message hin)

/-- No call throws into the runner, and none goes on for ever. -/
structure NeverBlocks (config : Config) (options : Options) (events : List DLQEvent)
    (state : DeadLettering) : Prop where
  /-- Each call after which the runner has gone on has returned. -/
  returned : state.calls.length = events.countP DLQEvent.isSettled
  failures : ∀ call ∈ state.calls, call.errors.length ≤ options.attempts
  /-- The call in progress does not throw, and does not call the handler too often. -/
  inProgress : ∀ message, inHandler state.consumer = some message →
    state.phase ≠ .throwing ∧ state.errors.length ≤ options.attempts
  /-- While the runner waits there is at most one outcome for each attempt, one for the message to
  the other topic and one for the callback. -/
  bounded : ∀ before stretch after, events = before ++ (stretch ++ after) →
    (∀ event ∈ stretch, event.isSettled = false) →
      stretch.countP DLQEvent.isOutcome ≤ options.attempts + 2
  /-- What the call waits for may come. -/
  goesOn : ∀ message, inHandler state.consumer = some message →
    ∃ event next, event.fails = false ∧ (event.isOutcome ∨ event.isSettled) ∧
      step config options state event = some next

/-- A settled call has failed at most once for each attempt. -/
theorem failures_le {dlqMessage : Option DLQMessage}
    (h : Settled options sent message errors dlqMessage) : errors.length ≤ options.attempts := by
  cases dlqMessage with
  | none => exact Nat.le_of_lt h
  | some dlqMessage => exact le_of_eq (DeadLettered.attempts h)

/-- A call in progress that does not throw has failed at most once for each attempt. -/
theorem errors_le {phase : Phase} (h : InPhase options sent message errors phase)
    (hreturns : phase ≠ .throwing) : errors.length ≤ options.attempts := by
  cases phase with
  | attempt attempt => exact h.1.le.trans (Nat.le_of_lt h.2)
  | sending dlqMessage => exact h.1.le
  | reporting dlqMessage => exact (DeadLettered.attempts h).le
  | returning dlqMessage => exact failures_le h
  | throwing => exact absurd rfl hreturns

/-- The invariants of a run in which nothing else fails. -/
theorem healthy_of_run (hbuilds : options.Builds) {committedOffset : Int} {events : List DLQEvent}
    (hhealthy : ∀ event ∈ events, event.fails = false)
    (hrun : run (step config options) (.initial committedOffset) events = some state) :
    Kept config options state ∧ Returns state ∧
      state.calls.length = events.countP DLQEvent.isSettled := by
  induction events using List.reverseRecOn generalizing state with
  | nil =>
      cases hrun
      exact ⟨kept_initial committedOffset, returns_initial committedOffset, rfl⟩
  | append_singleton events event ih =>
      obtain ⟨before, hbefore, hstep⟩ := run_concat_eq_some.mp hrun
      rw [List.forall_mem_append] at hhealthy
      obtain ⟨hkept, hreturns, hcount⟩ := ih hhealthy.1 hbefore
      obtain ⟨hnext, hlength⟩ := returns_step hkept hreturns hbuilds
        (hhealthy.2 event List.mem_cons_self) hstep
      refine ⟨hkept.step hstep, hnext, ?_⟩
      rw [hlength, hcount, List.countP_append, List.countP_singleton]

/-- In every run in which the producer and the callback do not fail, every call that the runner goes
on after has returned, and the others are about to: a message on which the handler always fails
does not stop the consumer. -/
theorem settles_of_run (hbuilds : options.Builds) {committedOffset : Int} {events : List DLQEvent}
    (hhealthy : ∀ event ∈ events, event.fails = false)
    (hrun : run (step config options) (.initial committedOffset) events = some state) :
    NeverBlocks config options events state := by
  obtain ⟨hkept, hreturns, hcount⟩ := healthy_of_run hbuilds hhealthy hrun
  refine ⟨hcount, fun call hcall => failures_le (hkept.settled call hcall),
    fun message hin => ⟨hreturns message hin,
      errors_le (hkept.phase message hin) (hreturns message hin)⟩,
    fun before stretch after hevents hstretch => ?_,
    fun message hin => goesOn_of_inHandler hreturns hin⟩
  subst hevents
  obtain ⟨start, hbefore, hrest⟩ := run_append_eq_some.mp hrun
  obtain ⟨middle, hmiddle, -⟩ := run_append_eq_some.mp hrest
  have hstart : Kept config options start :=
    invariant_of_run (fun _ _ _ h hstep => h.step hstep) (kept_initial committedOffset) hbefore
  have hleft := outcomesLeft_run hstart hstretch hmiddle
  have hle := @outcomesLeft_le options start
  omega

/-! ## The message in the other topic -/

/-- What an object has after entries were set. -/
theorem get?_foldl_set {entries : List (String × HeaderValue)}
    (hnodup : (entries.map Prod.fst).Nodup) (headers : InsertionMap String HeaderValue)
    (name : String) :
    (entries.foldl (fun headers entry => headers.set entry.1 entry.2) headers).get? name =
      ((entries.find? fun entry => entry.1 = name).map Prod.snd).or (headers.get? name) := by
  induction entries generalizing headers with
  | nil => rfl
  | cons first entries ih =>
      obtain ⟨hnotin, hrest⟩ := List.nodup_cons.mp hnodup
      rw [List.foldl_cons, ih hrest, InsertionMap.get?_set]
      by_cases heq : first.1 = name
      · have habsent : entries.find? (fun entry => entry.1 = name) = none :=
          List.find?_eq_none.mpr fun entry hentry hname => hnotin
            (List.mem_map.mpr ⟨entry, hentry, (of_decide_eq_true hname).trans heq.symm⟩)
        rw [habsent, if_pos heq.symm, List.find?_cons_of_pos (by simpa using heq)]
        rfl
      · rw [if_neg (Ne.symm heq), List.find?_cons_of_neg (by simpa using heq)]

/-- No header is added twice. -/
theorem names_dlqHeaders (error : HandlerError) (payload : EachMessagePayload) :
    ((dlqHeaders error payload).map Prod.fst).Nodup := by
  simp [dlqHeaders]

/-- The message has the key and the value of the original, and all of its headers except those that
are named like one of the added ones. -/
theorem headers_defaultDLQMessage {payload : EachMessagePayload} {error : HandlerError}
    {dlqMessage : DLQMessage} (h : defaultDLQMessage (some error) payload = .ok dlqMessage) :
    dlqMessage.key = payload.key ∧ dlqMessage.value = payload.value ∧ ∀ name,
      dlqMessage.headers.get? name =
        (((dlqHeaders error payload).find? fun entry => entry.1 = name).map Prod.snd).or
          ((payload.headers.getD .empty).get? name) := by
  rw [defaultDLQMessage] at h
  obtain rfl := Except.ok.inj h
  refine ⟨rfl, rfl, fun name => ?_⟩
  rw [get?_foldl_set (names_dlqHeaders error payload)]

/-! ## A message that always fails -/

/-- Two attempts for each message. -/
def sampleOptions : Options where
  topic := "dlq"
  maxRetries := 1
  createDLQMessage := none
  onOriginalMessageFailed := true
  payload message :=
    { topic := "t", partition := 0, key := message.key, value := none, offset := "0"
      timestamp := "0", headers := none }

/-- The handler fails on the only message, which is sent to the other topic. -/
def poison : List DLQEvent :=
  [.consumer .fetch, .consumer (.response 0 1 [] 2), .consumer .handleBatch,
    .consumer .nextMessage, .handlerThrows ⟨"Error", "first"⟩, .consumer .pause,
    .handlerThrows ⟨"Error", "second"⟩, .sent, .reported, .settled, .consumer (.heartbeat .ok),
    .consumer (.commit true)]

/-- The run on a poisonous message completes. -/
theorem run_poison : ∃ state,
    run (step ⟨committedTransaction, true⟩ sampleOptions) (.initial 0) poison = some state ∧
      state.consumer.autoCommitted = [⟨1, none⟩] ∧ state.sent.length = 1 := by
  have hfinal : (run (step ⟨committedTransaction, true⟩ sampleOptions) (.initial 0) poison).map
      (fun state => (state.consumer.autoCommitted, state.sent.length)) =
        some ([⟨1, none⟩], 1) := by decide
  obtain ⟨state, hrun, hstate⟩ := Option.map_eq_some_iff.mp hfinal
  obtain ⟨hcommitted, hsent⟩ := Prod.mk.inj hstate
  exact ⟨state, hrun, hcommitted, hsent⟩

/-- The poisonous message is in the other topic, and its offset is committed. -/
theorem deadLettered_of_run_poison : ∃ state,
    run (step ⟨committedTransaction, true⟩ sampleOptions) (.initial 0) poison = some state ∧
    state.sent.length = 1 ∧
    ∀ record, Visible committedTransaction state.consumer record → record.offset < 1 →
      ∃ call ∈ state.calls, call.message = record ∧
        Settled sampleOptions state.sent call.message call.errors call.dlqMessage := by
  obtain ⟨state, hrun, hcommitted, hsent⟩ := run_poison
  have hmem : (⟨1, none⟩ : StoredOffset) ∈ state.consumer.autoCommitted := by
    rw [hcommitted]
    exact List.mem_singleton_self _
  exact ⟨state, hrun, hsent, deadLettered_of_run hrun ⟨1, none⟩ (.inr hmem)⟩

/-- The poisonous message does not stop the consumer. -/
theorem settles_of_run_poison : ∃ state,
    run (step ⟨committedTransaction, true⟩ sampleOptions) (.initial 0) poison = some state ∧
      NeverBlocks ⟨committedTransaction, true⟩ sampleOptions poison state := by
  obtain ⟨state, hrun, -⟩ := run_poison
  exact ⟨state, hrun, settles_of_run (builds_default rfl (by decide)) (by simp [poison,
    DLQEvent.fails]) hrun⟩

end Healthy

end KafkaJs.Consumer.DeadLetterQueue
