import KafkaJs.Errors
import Mathlib.Data.Finset.Basic

/-!
# Filtering of aborted messages

`filterAbortedMessages` walks over the messages of a fetch once. It takes at most one aborted
transaction from its list at every message, and it recognises the end of a transaction by the key
of a message alone. `filterAbortedMessages_eq` describes the result without the walk, by the
message at which each transaction gets its turn. `exposed_exact_iff` then says when the messages
exposed to the consumer are exactly the data records of no aborted transaction: no such record
may be disguised by its key, missed because its transaction's turn is late or cut short by a
disguised record, or hidden by a transaction whose turn comes after its end.

Offsets and producer ids are decimal strings of 64-bit integers in the code, compared as `Long`
or as keys; they are integers here.
-/

namespace KafkaJs.Consumer

/-- What a message knows of its record batch. -/
structure BatchContext where
  producerId : Int
  inTransaction : Bool
  deriving DecidableEq, Repr

/-- A decoded message. Entries of a legacy message set have no batch context and are never
control records. -/
structure Message where
  offset : Int
  key : Option (List UInt8)
  isControlRecord : Bool
  batchContext : Option BatchContext
  deriving DecidableEq, Repr

/-- An aborted transaction as the fetch response lists it. -/
structure AbortedTransaction where
  producerId : Int
  firstOffset : Int
  deriving DecidableEq, Repr

/-- `ABORTED_MESSAGE_KEY`. -/
def abortedMessageKey : List UInt8 := [0, 0, 0, 0]

/-- `isAbortMarker`: only the key is looked at. -/
def isAbortMarker (message : Message) : Bool :=
  match message.key with
  | none => false
  | some key => key = abortedMessageKey

/-- The variables of `filterAbortedMessages`. The map of current transactions is used as a set
of producer ids. -/
structure Scan where
  remainingAbortedTransactions : List AbortedTransaction
  currentAbortedTransactions : Finset Int

/-- The error of reading the batch context of a message that has none. -/
def cannotDestructure : KafkaError :=
  { name := .typeError, message := "Cannot destructure property of undefined", retriable := none }

/-- The next aborted transaction is taken if the message has reached its first offset. -/
def Scan.advance (scan : Scan) (message : Message) : Scan :=
  match scan.remainingAbortedTransactions with
  | [] => scan
  | next :: rest =>
      if next.firstOffset ≤ message.offset then
        ⟨rest, insert next.producerId scan.currentAbortedTransactions⟩
      else scan

/-- The function given to `messages.filter`: whether the message is kept. -/
def Scan.visit (scan : Scan) (message : Message) : Except KafkaError (Scan × Bool) :=
  let scan := scan.advance message
  match message.batchContext with
  | none => .error cannotDestructure
  | some ⟨producerId, inTransaction⟩ =>
      if isAbortMarker message then
        .ok ({ scan with
          currentAbortedTransactions := scan.currentAbortedTransactions.erase producerId }, true)
      else if producerId ∈ scan.currentAbortedTransactions ∧ inTransaction then .ok (scan, false)
      else .ok (scan, true)

/-- `messages.filter` from an arbitrary state of the scan. -/
def filterFrom : Scan → List Message → Except KafkaError (List Message)
  | _, [] => .ok []
  | scan, message :: messages =>
      match scan.visit message with
      | .error error => .error error
      | .ok (scan, keep) =>
          (filterFrom scan messages).map fun kept => if keep then message :: kept else kept

/-- `filterAbortedMessages`; a missing list of aborted transactions is an empty one. -/
def filterAbortedMessages (messages : List Message)
    (abortedTransactions : List AbortedTransaction) : Except KafkaError (List Message) :=
  if abortedTransactions = [] then .ok messages
  else filterFrom ⟨abortedTransactions, ∅⟩ messages

/-- The messages that `Batch` exposes: no aborted messages, no control records. -/
def exposed (messages : List Message) (abortedTransactions : List AbortedTransaction) :
    Except KafkaError (List Message) :=
  (filterAbortedMessages messages abortedTransactions).map fun kept =>
    kept.filter fun message => !message.isControlRecord

/-! ## Membership in aborted transactions -/

/-- The message is one of the given producer. -/
def Message.IsFrom (message : Message) (producerId : Int) : Prop :=
  ∃ context ∈ message.batchContext, context.producerId = producerId

/-- The message came in a transactional batch. -/
def Message.Transactional (message : Message) : Prop :=
  ∃ context ∈ message.batchContext, context.inTransaction = true

/-- A control record that aborts a transaction. -/
def Message.IsAbortControlRecord (message : Message) : Prop :=
  message.isControlRecord = true ∧ isAbortMarker message = true

/-- No message of the producer between an offset and a message satisfies `ends`. -/
def OpenSince (messages : List Message) (ends : Message → Prop) (producerId start : Int)
    (record : Message) : Prop :=
  ∀ message ∈ messages, message.IsFrom producerId → ends message →
    start ≤ message.offset → record.offset ≤ message.offset

/-- The record belongs to an aborted transaction. -/
def Belongs (messages : List Message) (abortedTransactions : List AbortedTransaction)
    (record : Message) : Prop :=
  record.Transactional ∧ ∃ transaction ∈ abortedTransactions,
    record.IsFrom transaction.producerId ∧ transaction.firstOffset ≤ record.offset ∧
      OpenSince messages Message.IsAbortControlRecord transaction.producerId
        transaction.firstOffset record

/-- Every message takes at most one transaction: the transactions that get their turn, with the
offset of the message that takes them. -/
def turns : List Message → List AbortedTransaction → List (AbortedTransaction × Int)
  | [], _ => []
  | _, [] => []
  | message :: messages, next :: rest =>
      if next.firstOffset ≤ message.offset then (next, message.offset) :: turns messages rest
      else turns messages (next :: rest)

/-- A transaction of the record's producer had its turn, and no message of the producer with the
marker's key came after the turn and before the record. -/
def Covered (messages : List Message) (abortedTransactions : List AbortedTransaction)
    (record : Message) : Prop :=
  ∃ turn ∈ turns messages abortedTransactions,
    record.IsFrom turn.1.producerId ∧ turn.2 ≤ record.offset ∧
      OpenSince messages (fun message => isAbortMarker message = true) turn.1.producerId turn.2
        record

/-! ## Decidability -/

/-- `IsFrom` is decidable by the batch context. -/
instance (message : Message) (producerId : Int) : Decidable (message.IsFrom producerId) :=
  inferInstanceAs (Decidable (∃ context ∈ message.batchContext, context.producerId = producerId))

/-- `Transactional` is decidable by the batch context. -/
instance (message : Message) : Decidable message.Transactional :=
  inferInstanceAs (Decidable (∃ context ∈ message.batchContext, context.inTransaction = true))

/-- `IsAbortControlRecord` is decidable by the flag and the key. -/
instance (message : Message) : Decidable message.IsAbortControlRecord :=
  inferInstanceAs (Decidable (_ ∧ _))

/-- `OpenSince` is decidable by going through the messages. -/
instance (messages : List Message) (ends : Message → Prop) [DecidablePred ends]
    (producerId start : Int) (record : Message) :
    Decidable (OpenSince messages ends producerId start record) :=
  inferInstanceAs (Decidable (∀ message ∈ messages, _ → _))

/-- `Belongs` is decidable by going through the aborted transactions. -/
instance (messages : List Message) (abortedTransactions : List AbortedTransaction)
    (record : Message) : Decidable (Belongs messages abortedTransactions record) :=
  inferInstanceAs (Decidable (_ ∧ ∃ transaction ∈ abortedTransactions, _))

/-- `Covered` is decidable by going through the turns. -/
instance (messages : List Message) (abortedTransactions : List AbortedTransaction)
    (record : Message) : Decidable (Covered messages abortedTransactions record) :=
  inferInstanceAs (Decidable (∃ turn ∈ turns messages abortedTransactions, _))

/-! ## The scan -/

section Scan

variable {messages : List Message} {abortedTransactions : List AbortedTransaction}

/-- A transaction gets its turn at a message that has reached its first offset. -/
theorem mem_turns {turn : AbortedTransaction × Int}
    (h : turn ∈ turns messages abortedTransactions) :
    turn.1 ∈ abortedTransactions ∧ turn.1.firstOffset ≤ turn.2 ∧
      ∃ message ∈ messages, message.offset = turn.2 := by
  induction messages, abortedTransactions using turns.induct with
  | case1 => simp [turns] at h
  | case2 => simp [turns] at h
  | case3 message messages next rest hreached ih =>
      rw [turns, if_pos hreached, List.mem_cons] at h
      rcases h with rfl | hlater
      · exact ⟨by simp, hreached, message, by simp, rfl⟩
      · obtain ⟨hmem, hle, other, hother, heq⟩ := ih hlater
        exact ⟨by simp [hmem], hle, other, by simp [hother], heq⟩
  | case4 message messages next rest hnot ih =>
      rw [turns, if_neg hnot] at h
      obtain ⟨hmem, hle, other, hother, heq⟩ := ih h
      exact ⟨hmem, hle, other, by simp [hother], heq⟩

/-- The state of the scan between the messages it has seen and the rest: the transactions that
had their turn are `done`, and the current ones are those with no marker since. -/
structure Scanned (messages : List Message) (abortedTransactions : List AbortedTransaction)
    (seen rest : List Message) (scan : Scan) (done : List (AbortedTransaction × Int)) : Prop where
  turns_eq : turns messages abortedTransactions =
    done ++ turns rest scan.remainingAbortedTransactions
  past : ∀ turn ∈ done, ∀ message ∈ rest, turn.2 ≤ message.offset
  current : ∀ producerId, producerId ∈ scan.currentAbortedTransactions ↔
    ∃ turn ∈ done, turn.1.producerId = producerId ∧ ∀ message ∈ seen,
      message.IsFrom producerId → isAbortMarker message = true → message.offset < turn.2

variable {seen rest : List Message} {message : Message} {scan : Scan}
  {done : List (AbortedTransaction × Int)}

/-- Looking at the next message, the scan takes the transaction whose turn it is. -/
theorem Scanned.advance (h : Scanned messages abortedTransactions seen (message :: rest) scan done)
    (hsorted : (seen ++ message :: rest).Pairwise fun a b => a.offset < b.offset) :
    ∃ done, turns messages abortedTransactions =
        done ++ turns rest (scan.advance message).remainingAbortedTransactions ∧
      (∀ turn ∈ done, turn.2 ≤ message.offset) ∧
      ∀ producerId, producerId ∈ (scan.advance message).currentAbortedTransactions ↔
        ∃ turn ∈ done, turn.1.producerId = producerId ∧ ∀ message ∈ seen,
          message.IsFrom producerId → isAbortMarker message = true → message.offset < turn.2 := by
  have hpast : ∀ turn ∈ done, turn.2 ≤ message.offset := fun turn hturn =>
    h.past turn hturn message (by simp)
  unfold Scan.advance
  split
  · next hnone =>
      refine ⟨done, ?_, hpast, h.current⟩
      rw [h.turns_eq, hnone]
      cases rest <;> rfl
  · next next later hremaining =>
      split
      · next hreached =>
          refine ⟨done ++ [(next, message.offset)], ?_, ?_, ?_⟩
          · rw [h.turns_eq, hremaining, turns, if_pos hreached]
            simp
          · intro turn hturn
            rcases List.mem_append.mp hturn with hold | hnew
            · exact hpast turn hold
            · cases List.mem_singleton.mp hnew
              exact le_rfl
          · intro producerId
            -- the transaction that gets its turn is open: no message has ended it yet
            have hearlier : ∀ other ∈ seen, other.offset < message.offset := fun other hother =>
              (List.pairwise_append.mp hsorted).2.2 other hother message (by simp)
            rw [Finset.mem_insert, h.current]
            constructor
            · rintro (rfl | ⟨turn, hturn, hproducer, hopen⟩)
              · exact ⟨(next, message.offset), by simp, rfl, fun other hother _ _ =>
                  hearlier other hother⟩
              · exact ⟨turn, by simp [hturn], hproducer, hopen⟩
            · rintro ⟨turn, hturn, hproducer, hopen⟩
              rcases List.mem_append.mp hturn with hold | hnew
              · exact Or.inr ⟨turn, hold, hproducer, hopen⟩
              · cases List.mem_singleton.mp hnew
                exact Or.inl hproducer.symm
      · next hnot =>
          refine ⟨done, ?_, hpast, h.current⟩
          rw [h.turns_eq, hremaining, turns, if_neg hnot]

/-- A message is covered exactly if its producer is current when the scan looks at it. -/
theorem covered_iff_mem {producerId : Int} {current : Finset Int}
    {remaining : List AbortedTransaction} (hmessages : messages = seen ++ message :: rest)
    (hsorted : messages.Pairwise fun a b => a.offset < b.offset)
    (hproducer : message.batchContext.map BatchContext.producerId = some producerId)
    (hturns : turns messages abortedTransactions = done ++ turns rest remaining)
    (hpast : ∀ turn ∈ done, turn.2 ≤ message.offset)
    (hcurrent : producerId ∈ current ↔
      ∃ turn ∈ done, turn.1.producerId = producerId ∧ ∀ message ∈ seen,
        message.IsFrom producerId → isAbortMarker message = true → message.offset < turn.2) :
    Covered messages abortedTransactions message ↔ producerId ∈ current := by
  obtain ⟨context, hcontext, rfl⟩ := Option.map_eq_some_iff.mp hproducer
  have hfrom : ∀ other, message.IsFrom other ↔ other = context.producerId := by
    intro other
    simp [Message.IsFrom, hcontext, eq_comm]
  rw [hmessages] at hsorted
  obtain ⟨-, hlater, hearlier⟩ := List.pairwise_append.mp hsorted
  have hafter : ∀ other ∈ rest, message.offset < other.offset := fun other hother =>
    (List.pairwise_cons.mp hlater).1 other hother
  rw [hcurrent]
  constructor
  · rintro ⟨turn, hturn, hown, hle, hopen⟩
    rw [hturns, List.mem_append] at hturn
    -- turns that are left come with later messages
    refine ⟨turn, hturn.resolve_right fun hrest => ?_, (hfrom _).mp hown, ?_⟩
    · obtain ⟨-, -, other, hother, heq⟩ := mem_turns hrest
      have := hafter other hother
      omega
    · intro other hother hfromOther hmarker
      by_contra hge
      rw [hfrom] at hown
      rw [← hown] at hfromOther
      have := hopen other (by simp [hmessages, hother]) hfromOther hmarker (by omega)
      have := hearlier other hother message (by simp)
      omega
  · rintro ⟨turn, hturn, hown, hopen⟩
    refine ⟨turn, by simp [hturns, hturn], (hfrom _).mpr hown, hpast turn hturn, ?_⟩
    intro other hother hfromOther hmarker hge
    rw [hown] at hfromOther
    simp only [hmessages, List.mem_append, List.mem_cons] at hother
    rcases hother with hseen | rfl | hrest
    · have := hopen other hseen hfromOther hmarker
      omega
    · exact le_rfl
    · exact (hafter other hrest).le

/-- A message with the marker's key ends the current transaction of its producer. -/
theorem scanned_marker {context : BatchContext} (hmessage : message.batchContext = some context)
    (hmarker : isAbortMarker message = true)
    (hturns : turns messages abortedTransactions =
      done ++ turns rest scan.remainingAbortedTransactions)
    (hpast : ∀ turn ∈ done, turn.2 ≤ message.offset)
    (hlater : ∀ other ∈ rest, message.offset < other.offset)
    (hcurrent : ∀ producerId, producerId ∈ scan.currentAbortedTransactions ↔
      ∃ turn ∈ done, turn.1.producerId = producerId ∧ ∀ message ∈ seen,
        message.IsFrom producerId → isAbortMarker message = true → message.offset < turn.2) :
    Scanned messages abortedTransactions (seen ++ [message]) rest
      { scan with currentAbortedTransactions :=
        scan.currentAbortedTransactions.erase context.producerId } done := by
  refine ⟨hturns, fun turn hturn other hother => ?_, fun producerId => ?_⟩
  · exact (hpast turn hturn).trans (hlater other hother).le
  · show producerId ∈ scan.currentAbortedTransactions.erase context.producerId ↔ _
    rw [Finset.mem_erase, hcurrent]
    constructor
    · rintro ⟨hne, turn, hturn, hown, hopen⟩
      refine ⟨turn, hturn, hown, fun other hother hfrom hmarked => ?_⟩
      rcases List.mem_append.mp hother with hseen | hself
      · exact hopen other hseen hfrom hmarked
      · cases List.mem_singleton.mp hself
        obtain ⟨other, hother, heq⟩ := hfrom
        cases hmessage.symm.trans hother
        exact absurd heq.symm hne
    · rintro ⟨turn, hturn, hown, hopen⟩
      refine ⟨?_, turn, hturn, hown, fun other hother => hopen other (by simp [hother])⟩
      rintro rfl
      have hbefore := hopen message (by simp) ⟨context, hmessage, rfl⟩ hmarker
      have hafter := hpast turn hturn
      omega

/-- Any other message ends nothing. -/
theorem scanned_pass (hmarker : isAbortMarker message = false)
    (hturns : turns messages abortedTransactions =
      done ++ turns rest scan.remainingAbortedTransactions)
    (hpast : ∀ turn ∈ done, turn.2 ≤ message.offset)
    (hlater : ∀ other ∈ rest, message.offset < other.offset)
    (hcurrent : ∀ producerId, producerId ∈ scan.currentAbortedTransactions ↔
      ∃ turn ∈ done, turn.1.producerId = producerId ∧ ∀ message ∈ seen,
        message.IsFrom producerId → isAbortMarker message = true → message.offset < turn.2) :
    Scanned messages abortedTransactions (seen ++ [message]) rest scan done := by
  refine ⟨hturns, fun turn hturn other hother => ?_, fun producerId => ?_⟩
  · exact (hpast turn hturn).trans (hlater other hother).le
  · rw [hcurrent]
    refine exists_congr fun turn => and_congr_right fun _ => and_congr_right fun _ => ?_
    simp [or_imp, forall_and, hmarker]

/-- The scan keeps the messages with the marker's key and those that are not covered or not
transactional. -/
theorem filterFrom_eq (hmessages : messages = seen ++ rest)
    (hsorted : messages.Pairwise fun a b => a.offset < b.offset)
    (hcontext : ∀ message ∈ rest, message.batchContext.isSome)
    (hscanned : Scanned messages abortedTransactions seen rest scan done) :
    filterFrom scan rest = .ok (rest.filter fun message =>
      isAbortMarker message ∨
        ¬ (message.Transactional ∧ Covered messages abortedTransactions message)) := by
  -- one message after the other; `Scanned` carries what the scan knows of those before
  induction rest generalizing seen scan done with
  | nil => rfl
  | cons message rest ih =>
      obtain ⟨context, hmessage⟩ := Option.isSome_iff_exists.mp (hcontext message (by simp))
      obtain ⟨done, hturns, hpast, hcurrent⟩ := hscanned.advance (hmessages ▸ hsorted)
      have hdropped : message.Transactional ∧ Covered messages abortedTransactions message ↔
          context.producerId ∈ (scan.advance message).currentAbortedTransactions ∧
            context.inTransaction = true := by
        rw [covered_iff_mem hmessages hsorted (by simp [hmessage]) hturns hpast
          (hcurrent context.producerId), and_comm]
        simp [Message.Transactional, hmessage]
      have hlater : ∀ other ∈ rest, message.offset < other.offset := by
        rw [hmessages] at hsorted
        exact (List.pairwise_cons.mp (List.pairwise_append.mp hsorted).2.1).1
      have hnext : messages = (seen ++ [message]) ++ rest := by simp [hmessages]
      have hrest : ∀ other ∈ rest, other.batchContext.isSome := fun other hother =>
        hcontext other (by simp [hother])
      cases hmarker : isAbortMarker message with
      | true =>
          have hscannedRest := scanned_marker hmessage hmarker hturns hpast hlater hcurrent
          rw [List.filter_cons_of_pos (by simp [hmarker])]
          simp [filterFrom, Scan.visit, hmessage, hmarker, ih hnext hrest hscannedRest, Except.map]
      | false =>
          have hscannedRest := scanned_pass hmarker hturns hpast hlater hcurrent
          by_cases hdrop : message.Transactional ∧ Covered messages abortedTransactions message
          · rw [List.filter_cons_of_neg (by simp [hmarker, hdrop])]
            simp [filterFrom, Scan.visit, hmessage, hmarker, hdropped.mp hdrop,
              ih hnext hrest hscannedRest, Except.map]
          · rw [List.filter_cons_of_pos (by exact decide_eq_true (Or.inr hdrop))]
            rw [hdropped] at hdrop
            simp [filterFrom, Scan.visit, hmessage, hmarker, hdrop, ih hnext hrest hscannedRest,
              Except.map]

/-- What `filterAbortedMessages` returns, without the walk. -/
theorem filterAbortedMessages_eq (hsorted : messages.Pairwise fun a b => a.offset < b.offset)
    (hcontext : abortedTransactions = [] ∨ ∀ message ∈ messages, message.batchContext.isSome) :
    filterAbortedMessages messages abortedTransactions = .ok (messages.filter fun message =>
      isAbortMarker message ∨
        ¬ (message.Transactional ∧ Covered messages abortedTransactions message)) := by
  unfold filterAbortedMessages
  split
  · next hnone =>
      have hturns : turns messages abortedTransactions = [] := by
        rw [hnone]
        cases messages <;> rfl
      have hnot : ∀ message, ¬ Covered messages abortedTransactions message := by
        simp [Covered, hturns]
      simp [hnot]
  · next hsome =>
      refine @filterFrom_eq _ _ _ _ _ [] (List.nil_append messages).symm hsorted
        (hcontext.resolve_left hsome) ⟨rfl, by simp, by simp⟩

/-- A message without batch context makes the scan fail. -/
theorem filterFrom_error (h : ¬ ∀ message ∈ messages, message.batchContext.isSome) (scan : Scan) :
    ∃ error, filterFrom scan messages = .error error := by
  induction messages generalizing scan with
  | nil => simp at h
  | cons message messages ih =>
      unfold filterFrom
      cases hvisit : scan.visit message with
      | error error => exact ⟨error, rfl⟩
      | ok result =>
          have hcontext : message.batchContext.isSome := by
            cases hmessage : message.batchContext with
            | none => simp [Scan.visit, hmessage] at hvisit
            | some context => rfl
          obtain ⟨error, herror⟩ := ih (by simpa [hcontext] using h) result.1
          exact ⟨error, by simp [herror, Except.map]⟩

end Scan

/-! ## When exactly the right messages are exposed -/

section Exact

variable (messages : List Message) (abortedTransactions : List AbortedTransaction)

/-- The exposed messages are, in order, the data records of no aborted transaction. -/
def Exact : Prop :=
  exposed messages abortedTransactions = .ok (messages.filter fun record =>
    record.isControlRecord = false ∧ ¬ Belongs messages abortedTransactions record)

/-- An aborted record whose key is that of an abort marker. -/
def Disguised (record : Message) : Prop :=
  Belongs messages abortedTransactions record ∧ isAbortMarker record = true

/-- An aborted record for which every transaction of its producer is late or cut short: its turn
comes only after the record, or a message with the marker's key follows before the record. -/
def Missed (record : Message) : Prop :=
  Belongs messages abortedTransactions record ∧
    ∀ turn ∈ turns messages abortedTransactions, record.IsFrom turn.1.producerId →
      record.offset < turn.2 ∨
        ∃ message ∈ messages, message.IsFrom turn.1.producerId ∧ isAbortMarker message = true ∧
          turn.2 ≤ message.offset ∧ message.offset < record.offset

/-- A transactional record that is not aborted, after a transaction of its producer whose turn
came only after the abort control record that ended it. -/
def Resurrected (record : Message) : Prop :=
  record.Transactional ∧ ¬ Belongs messages abortedTransactions record ∧
    isAbortMarker record = false ∧
    ∃ turn ∈ turns messages abortedTransactions, record.IsFrom turn.1.producerId ∧
      turn.2 ≤ record.offset ∧
      (∃ message ∈ messages, message.IsFrom turn.1.producerId ∧ message.IsAbortControlRecord ∧
        turn.1.firstOffset ≤ message.offset ∧ message.offset < turn.2) ∧
      ∀ message ∈ messages, message.IsFrom turn.1.producerId → isAbortMarker message = true →
        turn.2 ≤ message.offset → record.offset ≤ message.offset

/-- Nothing stands in the way of the scan: the messages have their batch context, and no data
record is disguised, missed or hidden by a transaction that is over. -/
def Undisturbed : Prop :=
  (abortedTransactions = [] ∨ ∀ message ∈ messages, message.batchContext.isSome) ∧
  ∀ record ∈ messages, record.isControlRecord = false →
    ¬ Disguised messages abortedTransactions record ∧
    ¬ Missed messages abortedTransactions record ∧
    ¬ Resurrected messages abortedTransactions record

/-- `Exact` is decidable by running the filter. -/
instance : Decidable (Exact messages abortedTransactions) :=
  inferInstanceAs (Decidable (_ = _))

/-- `Disguised` is decidable by membership and the key. -/
instance (record : Message) : Decidable (Disguised messages abortedTransactions record) :=
  inferInstanceAs (Decidable (_ ∧ _))

/-- `Missed` is decidable by going through the turns. -/
instance (record : Message) : Decidable (Missed messages abortedTransactions record) :=
  inferInstanceAs (Decidable (_ ∧ _))

/-- `Resurrected` is decidable by going through the turns and the messages. -/
instance (record : Message) : Decidable (Resurrected messages abortedTransactions record) :=
  inferInstanceAs (Decidable (_ ∧ _))

/-- `Undisturbed` is decidable record by record. -/
instance : Decidable (Undisturbed messages abortedTransactions) :=
  inferInstanceAs (Decidable (_ ∧ _))

variable {messages abortedTransactions}

/-- A record is missed exactly if it is aborted and not covered. -/
theorem missed_iff {record : Message} :
    Missed messages abortedTransactions record ↔
      Belongs messages abortedTransactions record ∧
        ¬ Covered messages abortedTransactions record := by
  refine and_congr_right fun _ => ?_
  simp only [Covered, OpenSince, not_exists, not_and, not_forall, not_le, exists_prop]
  refine forall_congr' fun turn => forall_congr' fun _ => forall_congr' fun _ => ?_
  rw [← not_le, ← imp_iff_not_or]

/-- A transactional record that is covered but not aborted, and has an ordinary key, is hidden by
a transaction that is over. -/
theorem resurrected_iff {record : Message} :
    Resurrected messages abortedTransactions record ↔
      record.Transactional ∧ ¬ Belongs messages abortedTransactions record ∧
        isAbortMarker record = false ∧ Covered messages abortedTransactions record := by
  refine and_congr_right fun htransactional => and_congr_right fun hnot =>
    and_congr_right fun _ => ?_
  constructor
  · rintro ⟨turn, hturn, hfrom, hle, -, hopen⟩
    exact ⟨turn, hturn, hfrom, hle, hopen⟩
  · rintro ⟨turn, hturn, hfrom, hle, hopen⟩
    refine ⟨turn, hturn, hfrom, hle, ?_, hopen⟩
    obtain ⟨hmem, hreached, -⟩ := mem_turns hturn
    -- the record does not belong to this transaction, so an abort control record ended it
    have hended : ¬ OpenSince messages Message.IsAbortControlRecord turn.1.producerId
        turn.1.firstOffset record := fun hopenSince =>
      hnot ⟨htransactional, turn.1, hmem, hfrom, hreached.trans hle, hopenSince⟩
    simp only [OpenSince, not_forall, not_le] at hended
    obtain ⟨marker, hmarker, hfromMarker, hcontrol, hafter, hbefore⟩ := hended
    refine ⟨marker, hmarker, hfromMarker, hcontrol, hafter, ?_⟩
    by_contra hge
    have := hopen marker hmarker hfromMarker hcontrol.2 (by omega)
    omega

/-- The control-record filter after the scan. -/
theorem exposed_eq (hsorted : messages.Pairwise fun a b => a.offset < b.offset)
    (hcontext : abortedTransactions = [] ∨ ∀ message ∈ messages, message.batchContext.isSome) :
    exposed messages abortedTransactions = .ok (messages.filter fun record =>
      record.isControlRecord = false ∧ (isAbortMarker record ∨
        ¬ (record.Transactional ∧ Covered messages abortedTransactions record))) := by
  rw [exposed, filterAbortedMessages_eq hsorted hcontext, Except.map, List.filter_filter]
  congr 2
  funext record
  simp

/-- The messages exposed to the consumer are exactly the data records of no aborted transaction,
if and only if the scan is undisturbed. -/
theorem exposed_exact_iff (messages : List Message)
    (abortedTransactions : List AbortedTransaction)
    (hsorted : messages.Pairwise fun a b => a.offset < b.offset) :
    Exact messages abortedTransactions ↔ Undisturbed messages abortedTransactions := by
  by_cases hcontext : abortedTransactions = [] ∨
      ∀ message ∈ messages, message.batchContext.isSome
  · rw [Exact, exposed_eq hsorted hcontext, Except.ok.injEq, Undisturbed,
      and_iff_right hcontext]
    constructor
    · intro hsame record hmem hdata
      -- of a data record: it is kept exactly if it is in no aborted transaction
      have hkept : isAbortMarker record = true ∨
            ¬ (record.Transactional ∧ Covered messages abortedTransactions record) ↔
          ¬ Belongs messages abortedTransactions record := by
        have hiff := congrArg (record ∈ ·) hsame
        simpa only [List.mem_filter, hmem, hdata, true_and, decide_eq_true_eq, eq_iff_iff]
          using hiff
      refine ⟨?_, ?_, ?_⟩
      · rintro ⟨hbelongs, hmarker⟩
        exact hkept.mp (Or.inl hmarker) hbelongs
      · rw [missed_iff]
        rintro ⟨hbelongs, hnot⟩
        exact hkept.mp (Or.inr fun hcovered => hnot hcovered.2) hbelongs
      · rw [resurrected_iff]
        rintro ⟨htransactional, hnot, hordinary, hcovered⟩
        rcases hkept.mpr hnot with hmarker | hnotCovered
        · simp [hordinary] at hmarker
        · exact hnotCovered ⟨htransactional, hcovered⟩
    · intro hundisturbed
      refine List.filter_congr fun record hmem => ?_
      rw [decide_eq_decide]
      refine and_congr_right fun hdata => ?_
      obtain ⟨hdisguised, hmissed, hresurrected⟩ := hundisturbed record hmem hdata
      rw [missed_iff] at hmissed
      rw [resurrected_iff] at hresurrected
      constructor
      · intro hkept hbelongs
        rcases hkept with hmarker | hnotCovered
        · exact hdisguised ⟨hbelongs, hmarker⟩
        · exact hmissed ⟨hbelongs, fun hcovered => hnotCovered ⟨hbelongs.1, hcovered⟩⟩
      · intro hnot
        by_contra hdropped
        obtain ⟨hordinary, hcovered⟩ := not_or.mp hdropped
        rw [not_not] at hcovered
        exact hresurrected ⟨hcovered.1, hnot, by simpa using hordinary, hcovered.2⟩
  -- a message without a batch context makes the filter throw
  · obtain ⟨hsome, hmissing⟩ := not_or.mp hcontext
    obtain ⟨error, herror⟩ := filterFrom_error hmissing ⟨abortedTransactions, ∅⟩
    have hfails : exposed messages abortedTransactions = .error error := by
      simp [exposed, filterAbortedMessages, hsome, herror, Except.map]
    simp [Exact, hfails, Undisturbed, hcontext]

/-- A data record of a transaction by the given producer. -/
def transactionalRecord (producerId offset : Int) : Message :=
  ⟨offset, some [107], false, some ⟨producerId, true⟩⟩

/-- The control record that aborts a transaction of the given producer. -/
def abortControlRecord (producerId offset : Int) : Message :=
  ⟨offset, some abortedMessageKey, true, some ⟨producerId, true⟩⟩

/-- Two interleaved aborted transactions that start within the fetch are filtered exactly. -/
theorem exposed_exact_interleaved :
    Exact [transactionalRecord 1 0, transactionalRecord 2 1, transactionalRecord 1 2,
      abortControlRecord 1 3, transactionalRecord 1 4, abortControlRecord 2 5] [⟨1, 0⟩, ⟨2, 1⟩] :=
  (exposed_exact_iff _ _ (by decide)).mpr (by decide)

/-- Two aborted transactions that started before the fetch: the first message takes only the
first of them, and the record of the second is exposed. -/
theorem exposed_leaks_second_transaction :
    (([transactionalRecord 2 10, abortControlRecord 1 11, abortControlRecord 2 12] :
        List Message).Pairwise fun a b => a.offset < b.offset) ∧
    ([⟨1, 5⟩, ⟨2, 6⟩] : List AbortedTransaction).Pairwise
      (fun a b => a.firstOffset ≤ b.firstOffset) ∧
    exposed [transactionalRecord 2 10, abortControlRecord 1 11, abortControlRecord 2 12]
      [⟨1, 5⟩, ⟨2, 6⟩] = .ok [transactionalRecord 2 10] ∧
    ¬ Exact [transactionalRecord 2 10, abortControlRecord 1 11, abortControlRecord 2 12]
      [⟨1, 5⟩, ⟨2, 6⟩] := by
  decide

end Exact

end KafkaJs.Consumer
