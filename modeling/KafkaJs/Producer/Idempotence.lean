import KafkaJs.Producer.IdempotentSends

/-!
# When idempotent sends are exactly-once

After a lost response the broker is ahead of the client: the batch is appended, and its sequence
was given back. Nothing is wrong as long as the call that owns the batch claims the sequence
again, because the broker then recognises the batch. The invariant `Ledger` says that for every
topic-partition either client and broker agree and every appended batch belongs to a resolved
call, or exactly the newest batch is such a leftover of an unresolved call.

It is kept by every step except a request that claims the sequence and the record count of a
leftover of another call, or that takes a counter beyond its maximum: `Unclaimed`.
-/

namespace KafkaJs.Producer.Idempotent

open Data Utils Execution

variable {τ μ : Type}

/-! ## Phases -/

/-- The call holds the broker's lock. -/
def SendPhase.Holds : SendPhase τ μ → Prop
  | .locked _ | .producing _ _ | .delivered _ _ _ => True
  | .idle _ | .queued _ | .resolved | .rejected _ => False

/-- The call waits for the broker's lock. -/
def SendPhase.Waits : SendPhase τ μ → Prop
  | .queued _ => True
  | .idle _ | .locked _ | .producing _ _ | .delivered _ _ _ | .resolved | .rejected _ => False

/-- The call succeeded. -/
def SendPhase.Resolved : SendPhase τ μ → Prop
  | .resolved => True
  | .idle _ | .queued _ | .locked _ | .producing _ _ | .delivered _ _ _ | .rejected _ => False

/-- The request under way, with what the broker made of it once it was delivered. -/
def SendPhase.request : SendPhase τ μ → Option (List (τ × Batch μ) × Option Bool)
  | .producing _ request => some (request, none)
  | .delivered _ request accepted => some (request, some accepted)
  | .idle _ | .queued _ | .locked _ | .resolved | .rejected _ => none

/-- A call with a request under way holds the lock and is not resolved. -/
theorem SendPhase.of_request {phase : SendPhase τ μ} {request : List (τ × Batch μ)}
    {outcome : Option Bool} (h : phase.request = some (request, outcome)) :
    phase.Holds ∧ ¬ phase.Resolved := by
  cases phase <;> simp_all [SendPhase.request, SendPhase.Holds, SendPhase.Resolved]

/-- After an error the call is idle or rejected. -/
theorem afterError_cases (retries retryCount : Nat) (recovery : Recovery) (error : KafkaError) :
    (∃ next, (afterError retries retryCount recovery error : SendPhase τ μ) = .idle next) ∨
      ∃ other, (afterError retries retryCount recovery error : SendPhase τ μ) =
        .rejected other := by
  unfold afterError
  split
  · exact Or.inl ⟨_, rfl⟩
  · exact Or.inr ⟨_, rfl⟩
  · exact Or.inr ⟨_, rfl⟩
  · exact Or.inr ⟨_, rfl⟩

section AfterError

variable (retries retryCount : Nat) (recovery : Recovery) (error : KafkaError)

/-- After an error no request is under way. -/
@[simp] theorem afterError_request :
    (afterError retries retryCount recovery error : SendPhase τ μ).request = none := by
  rcases afterError_cases (τ := τ) (μ := μ) retries retryCount recovery error with
    ⟨_, h⟩ | ⟨_, h⟩ <;> rw [h] <;> rfl

/-- After an error the send has not resolved. -/
@[simp] theorem afterError_resolved :
    ¬ (afterError retries retryCount recovery error : SendPhase τ μ).Resolved := by
  rcases afterError_cases (τ := τ) (μ := μ) retries retryCount recovery error with
    ⟨_, h⟩ | ⟨_, h⟩ <;> rw [h] <;> exact id

/-- After an error the send holds no lock. -/
@[simp] theorem afterError_holds :
    ¬ (afterError retries retryCount recovery error : SendPhase τ μ).Holds := by
  rcases afterError_cases (τ := τ) (μ := μ) retries retryCount recovery error with
    ⟨_, h⟩ | ⟨_, h⟩ <;> rw [h] <;> exact id

/-- After an error the send waits for no lock. -/
@[simp] theorem afterError_waits :
    ¬ (afterError retries retryCount recovery error : SendPhase τ μ).Waits := by
  rcases afterError_cases (τ := τ) (μ := μ) retries retryCount recovery error with
    ⟨_, h⟩ | ⟨_, h⟩ <;> rw [h] <;> exact id

end AfterError

/-- A granted lock changes no request. -/
@[simp] theorem granted_request (phase : SendPhase τ μ) :
    phase.granted.request = phase.request := by
  cases phase <;> rfl

/-- A granted lock resolves no send. -/
@[simp] theorem granted_resolved (phase : SendPhase τ μ) :
    phase.granted.Resolved ↔ phase.Resolved := by
  cases phase <;> rfl

/-- Handing over the lock changes neither requests nor results. -/
theorem grant_frame (phase : Nat → SendPhase τ μ) (caller : Option Nat) (call : Nat) :
    (grant phase caller call).request = (phase call).request ∧
      ((grant phase caller call).Resolved ↔ (phase call).Resolved) := by
  cases caller with
  | none => exact ⟨rfl, Iff.rfl⟩
  | some caller =>
      by_cases heq : call = caller
      · subst heq
        simp [grant]
      · simp [grant, Function.update_of_ne heq]

/-- A waiter that takes the lock holds it and no longer waits. -/
theorem SendPhase.Waits.granted {phase : SendPhase τ μ} (h : phase.Waits) :
    phase.granted.Holds ∧ ¬ phase.granted.Waits := by
  cases phase <;> simp_all [SendPhase.Waits, SendPhase.granted, SendPhase.Holds]

/-- A send that waits for the lock does not hold it. -/
theorem SendPhase.Waits.not_holds {phase : SendPhase τ μ} (h : phase.Waits) :
    ¬ phase.Holds := by
  cases phase <;> simp_all [SendPhase.Waits, SendPhase.Holds]

/-- The holder releases the lock and moves to a phase in which it neither holds nor waits. -/
theorem serves_releaseBrokerLock {state : State τ μ}
    (h : state.lock.Serves (fun call => (state.phase call).Holds)
      (fun call => (state.phase call).Waits))
    {call : Nat} (hholds : (state.phase call).Holds) {phase : SendPhase τ μ}
    (hreleased : ¬ phase.Holds) (hidle : ¬ phase.Waits) :
    (releaseBrokerLock state call phase).lock.Serves
      (fun other => ((releaseBrokerLock state call phase).phase other).Holds)
      (fun other => ((releaseBrokerLock state call phase).phase other).Waits) := by
  have hnext : ∀ caller, state.lock.release.2 = some caller → (state.phase caller).Waits := by
    intro caller hcaller
    rw [← h.waiting]
    unfold Lock.release at hcaller
    split at hcaller
    · cases hcaller
    · next heq =>
        cases hcaller
        rw [heq]
        exact List.mem_cons_self
  have hother : ∀ other, other ≠ call → ¬ (state.phase other).Holds := fun other hne hother =>
    hne (h.exclusive other call hother hholds)
  -- what becomes of one call when the lock goes to `next`
  have hphase : ∀ other,
      (((releaseBrokerLock state call phase).phase other).Holds ↔
        state.lock.release.2 = some other) ∧
      (((releaseBrokerLock state call phase).phase other).Waits ↔
        (state.phase other).Waits ∧ state.lock.release.2 ≠ some other) := by
    intro other
    simp only [releaseBrokerLock]
    cases hrelease : state.lock.release.2 with
    | none =>
        by_cases heq : other = call
        · subst heq
          have hnotWaits : ¬ (state.phase other).Waits := fun hwaits => hwaits.not_holds hholds
          simp [grant, hreleased, hidle, hnotWaits]
        · simp [grant, Function.update_of_ne heq, hother other heq]
    | some next =>
        have hwaits := hnext next hrelease
        have hne : next ≠ call := fun heq => (heq ▸ hwaits).not_holds hholds
        by_cases hsame : other = next
        · subst hsame
          obtain ⟨hgranted, hnotWaits⟩ := hwaits.granted
          simp [grant, Function.update_of_ne hne, hgranted, hnotWaits]
        · by_cases heq : other = call
          · subst heq
            have hnotWaits : ¬ (state.phase other).Waits := fun hwaits =>
              hwaits.not_holds hholds
            simp [grant, Function.update_of_ne hsame, hreleased, hidle, hnotWaits,
              Ne.symm hsame]
          · simp [grant, Function.update_of_ne hsame, Function.update_of_ne heq,
              hother other heq, Ne.symm hsame]
  exact h.release.congr (fun other => (hphase other).1) (fun other => (hphase other).2)

/-! ## Claiming and giving back -/

section Claim

variable [DecidableEq τ]

/-- A request carries the entries of its call, each with the sequence it found. -/
theorem claim_request (owner : Nat) {entries : List (τ × List μ)} {producerSequence : τ → Int}
    (hnodup : (entries.map Prod.fst).Nodup) :
    (claim owner producerSequence entries).1 = entries.map fun entry =>
      (entry.1, ⟨owner, producerSequence entry.1, entry.2⟩) := by
  induction entries generalizing producerSequence with
  | nil => rfl
  | cons entry entries ih =>
      obtain ⟨topicPartition, messages⟩ := entry
      simp only [List.map_cons, List.nodup_cons] at hnodup
      simp only [claim, List.map_cons, ih hnodup.2, getSequence, if_true, List.cons.injEq,
        true_and]
      refine List.map_congr_left fun other hmem => ?_
      have hne : other.1 ≠ topicPartition := by
        intro heq
        exact hnodup.1 (heq ▸ List.mem_map_of_mem hmem)
      simp [updateSequence, Function.update_of_ne hne]

/-- Claiming advances each sequence of the call. -/
theorem claim_sequence (owner : Nat) (entries : List (τ × List μ)) (producerSequence : τ → Int) :
    (claim owner producerSequence entries).2 =
      updateAll (fun sequence messages => rotate sequence (messages.length : Int))
        producerSequence entries := by
  induction entries generalizing producerSequence with
  | nil => rfl
  | cons entry entries ih =>
      obtain ⟨topicPartition, messages⟩ := entry
      simp only [claim, ih, updateAll_cons]
      rfl

/-- Giving back moves each sequence of the request back. -/
theorem giveBack_eq (producerSequence : τ → Int) (request : List (τ × Batch μ)) :
    giveBack producerSequence request =
      updateAll (fun sequence batch => rotate sequence (-(batch.messages.length : Int)))
        producerSequence request :=
  rfl

end Claim

/-! ## The ledger -/

/-- A log agrees with the client's sequence `base`, or its newest batch is the leftover of an
unresolved call that starts there. All other batches belong to resolved calls. -/
def Consistent (phase : Nat → SendPhase τ μ) (log : List (Batch μ)) (base : Int) : Prop :=
  (nextSequence log = base ∧ ∀ batch ∈ log, (phase batch.owner).Resolved) ∨
  ∃ leftover older, log = leftover :: older ∧ leftover.firstSequence = base ∧
    ¬ (phase leftover.owner).Resolved ∧ nextSequence older = base ∧
    ∀ batch ∈ older, (phase batch.owner).Resolved

/-- Consistency looks at phases only to tell resolved calls from others. -/
theorem Consistent.congr {phase phase' : Nat → SendPhase τ μ} {log : List (Batch μ)} {base : Int}
    (h : Consistent phase log base)
    (hphase : ∀ batch ∈ log, (phase' batch.owner).Resolved ↔ (phase batch.owner).Resolved) :
    Consistent phase' log base := by
  rcases h with ⟨hnext, hresolved⟩ | ⟨leftover, older, rfl, hfirst, hopen, hnext, hresolved⟩
  · exact Or.inl ⟨hnext, fun batch hmem => (hphase batch hmem).mpr (hresolved batch hmem)⟩
  · refine Or.inr ⟨leftover, older, rfl, hfirst, ?_, hnext, fun batch hmem =>
      (hphase batch (List.mem_cons_of_mem _ hmem)).mpr (hresolved batch hmem)⟩
    rw [hphase leftover List.mem_cons_self]
    exact hopen

/-- A batch under way as the ledger knows it. -/
structure UnderWay (window : Nat) (state : State τ μ) (call : Nat) (outcome : Option Bool)
    (topicPartition : τ) (batch : Batch μ) : Prop where
  owner : batch.owner = call
  /-- The client's sequence is already past the batch. -/
  advanced : state.producerSequence topicPartition =
    batch.firstSequence + batch.messages.length
  bounded : batch.firstSequence + batch.messages.length < int32MaxValue
  consistent : Consistent state.phase (state.log topicPartition) batch.firstSequence
  /-- Before delivery the broker remembers no such batch of another call. -/
  unclaimed : outcome = none → ∀ old ∈ (state.log topicPartition).take window,
    old.firstSequence = batch.firstSequence → old.messages.length = batch.messages.length →
    old.owner = call
  /-- After an acknowledgement the newest batch is the call's. -/
  appended : outcome = some true →
    ∃ newest older, state.log topicPartition = newest :: older ∧ newest.owner = call

/-- What holds along every run in which no request claims the sequence of another call's
leftover. -/
structure Ledger (calls : Nat → Call τ μ) (window : Nat) (state : State τ μ) : Prop where
  serves : state.lock.Serves (fun call => (state.phase call).Holds)
    (fun call => (state.phase call).Waits)
  content : ∀ topicPartition, ∀ batch ∈ state.log topicPartition,
    (topicPartition, batch.messages) ∈ (calls batch.owner).entries
  once : ∀ topicPartition, ((state.log topicPartition).map Batch.owner).Nodup
  written : ∀ call, (state.phase call).Resolved → ∀ entry ∈ (calls call).entries,
    ∃ batch ∈ state.log entry.1, batch.owner = call
  /-- A request carries the entries of its call. -/
  request : ∀ call request outcome, (state.phase call).request = some (request, outcome) →
    request.map (fun entry => (entry.1, entry.2.messages)) = (calls call).entries ∧
    ∀ entry ∈ request, UnderWay window state call outcome entry.1 entry.2
  /-- Where no request is under way, client and log are consistent. -/
  quiet : ∀ topicPartition,
    (∀ call request outcome, (state.phase call).request = some (request, outcome) →
      topicPartition ∉ request.map Prod.fst) →
    Consistent state.phase (state.log topicPartition) (state.producerSequence topicPartition)

/-- At first nothing is written. -/
theorem ledger_initial (calls : Nat → Call τ μ) (window : Nat) :
    Ledger calls window State.initial := by
  refine ⟨Lock.serves_free, ?_, ?_, ?_, ?_, ?_⟩
  · simp [State.initial]
  · simp [State.initial]
  · simp [State.initial, SendPhase.Resolved]
  · simp [State.initial, SendPhase.request]
  · intro topicPartition _
    exact Or.inl ⟨rfl, by simp [State.initial]⟩

section Steps

variable {calls : Nat → Call τ μ} {window : Nat} {state : State τ μ}

/-- While a call holds the lock, no other call has a request under way. -/
theorem Ledger.exclusive (h : Ledger calls window state) {call : Nat}
    (hholds : (state.phase call).Holds) {other : Nat} {request : List (τ × Batch μ)}
    {outcome : Option Bool} (hrequest : (state.phase other).request = some (request, outcome)) :
    other = call :=
  h.serves.exclusive other call (SendPhase.of_request hrequest).1 hholds

/-- While a call holds the lock, client and log are consistent outside of its own request. -/
theorem Ledger.quiet_of_notMem (h : Ledger calls window state) {call : Nat}
    {request : List (τ × Batch μ)} {outcome : Option Bool}
    (hrequest : (state.phase call).request = some (request, outcome)) {topicPartition : τ}
    (hmem : topicPartition ∉ request.map Prod.fst) :
    Consistent state.phase (state.log topicPartition) (state.producerSequence topicPartition) := by
  refine h.quiet topicPartition fun other otherRequest otherOutcome hother => ?_
  have heq := h.exclusive (SendPhase.of_request hrequest).1 hother
  subst heq
  rw [hrequest] at hother
  cases hother
  exact hmem

/-- A change of phases that leaves requests and results alone keeps the ledger. -/
theorem Ledger.rephase (h : Ledger calls window state) {next : State τ μ}
    (hsequence : next.producerSequence = state.producerSequence) (hlog : next.log = state.log)
    (hframe : ∀ call, (next.phase call).request = (state.phase call).request ∧
      ((next.phase call).Resolved ↔ (state.phase call).Resolved))
    (hserves : next.lock.Serves (fun call => (next.phase call).Holds)
      (fun call => (next.phase call).Waits)) : Ledger calls window next := by
  refine ⟨hserves, ?_, ?_, ?_, ?_, ?_⟩
  · rw [hlog]
    exact h.content
  · rw [hlog]
    exact h.once
  · intro call hresolved
    rw [hlog]
    exact h.written call ((hframe call).2.mp hresolved)
  · intro call request outcome hrequest
    rw [(hframe call).1] at hrequest
    obtain ⟨hentries, hbatches⟩ := h.request call request outcome hrequest
    refine ⟨hentries, fun entry hentry => ?_⟩
    have hbatch := hbatches entry hentry
    exact
      { owner := hbatch.owner
        advanced := by rw [hsequence]; exact hbatch.advanced
        bounded := hbatch.bounded
        consistent := by
          rw [hlog]
          exact hbatch.consistent.congr fun batch _ => (hframe batch.owner).2
        unclaimed := by rw [hlog]; exact hbatch.unclaimed
        appended := by rw [hlog]; exact hbatch.appended }
  · intro topicPartition hquiet
    rw [hlog, hsequence]
    refine (h.quiet topicPartition fun call request outcome hrequest => ?_).congr
      fun batch _ => (hframe batch.owner).2
    exact hquiet call request outcome ((hframe call).1.trans hrequest)

/-- The batches of a request are those of its call's topic-partitions. -/
theorem request_keys {call : Nat} {request : List (τ × Batch μ)}
    (hentries : request.map (fun entry => (entry.1, entry.2.messages)) = (calls call).entries) :
    request.map Prod.fst = (calls call).entries.map Prod.fst := by
  rw [← hentries, List.map_map]
  rfl

/-- A request names no topic-partition twice. -/
theorem request_nodup {call : Nat} {request : List (τ × Batch μ)}
    (hentries : request.map (fun entry => (entry.1, entry.2.messages)) = (calls call).entries) :
    (request.map Prod.fst).Nodup := by
  rw [request_keys hentries]
  exact (calls call).nodup

/-- The broker processes a batch that is under way: afterwards the log is still consistent with
its first sequence, and if the batch is acknowledged the newest batch is the call's. -/
theorem receive_consistent {call : Nat} {log : List (Batch μ)} {batch : Batch μ}
    (hopen : ¬ (state.phase call).Resolved) (howner : batch.owner = call)
    (hnonempty : ∀ old ∈ log, old.messages ≠ [])
    (hconsistent : Consistent state.phase log batch.firstSequence)
    (hunclaimed : ∀ old ∈ log.take window, old.firstSequence = batch.firstSequence →
      old.messages.length = batch.messages.length → old.owner = call) :
    Consistent state.phase (receive log batch) batch.firstSequence ∧
    (receive log batch = batch :: log ∧ (∀ old ∈ log, (state.phase old.owner).Resolved) ∨
      receive log batch = log) ∧
    (acknowledges window log batch = true →
      ∃ newest older, receive log batch = newest :: older ∧ newest.owner = call) := by
  rcases hconsistent with ⟨hnext, hresolved⟩ |
    ⟨leftover, older, rfl, hfirst, hleftover, hnext, hresolved⟩
  · have hreceive : receive log batch = batch :: log := by simp [receive, hnext]
    rw [hreceive]
    refine ⟨Or.inr ⟨batch, log, rfl, rfl, ?_, hnext, hresolved⟩, Or.inl ⟨rfl, hresolved⟩, ?_⟩
    · rw [howner]
      exact hopen
    · exact fun _ => ⟨batch, log, rfl, howner⟩
  · have hlength : 0 < leftover.messages.length :=
      List.length_pos_iff.mpr (hnonempty leftover List.mem_cons_self)
    have hbehind : batch.firstSequence ≠ nextSequence (leftover :: older) := by
      simp only [nextSequence]
      omega
    have hreceive : receive (leftover :: older) batch = leftover :: older := by
      simp [receive, hbehind]
    rw [hreceive]
    refine ⟨Or.inr ⟨leftover, older, rfl, hfirst, hleftover, hnext, hresolved⟩, Or.inr rfl, ?_⟩
    intro hacknowledged
    refine ⟨leftover, older, rfl, ?_⟩
    simp only [acknowledges, hbehind, false_or, remembers, List.any_eq_true,
      decide_eq_true_eq] at hacknowledged
    obtain ⟨old, hold, hsequence, hcount⟩ := hacknowledged
    have hownerOld := hunclaimed old hold hsequence hcount
    rcases List.mem_cons.mp (List.mem_of_mem_take hold) with rfl | holder
    · exact hownerOld
    · exact absurd (hownerOld ▸ hresolved old holder) hopen

/-- The phases after a call released the lock. -/
theorem releaseBrokerLock_frame (state : State τ μ) (call : Nat) (phase : SendPhase τ μ)
    (other : Nat) :
    ((releaseBrokerLock state call phase).phase other).request =
        (Function.update state.phase call phase other).request ∧
      (((releaseBrokerLock state call phase).phase other).Resolved ↔
        (Function.update state.phase call phase other).Resolved) :=
  grant_frame _ _ _

variable [DecidableEq τ]

/-- The condition on a step: a request that claims its sequences stays below the maximum, and
the broker remembers no batch of another call with the sequence and the record count it
claims. -/
def Unclaimed (calls : Nat → Call τ μ) (window : Nat) (state : State τ μ) : Event → Prop
  | .produce call => ∀ entry ∈ (calls call).entries,
      state.producerSequence entry.1 + entry.2.length < int32MaxValue ∧
      ∀ old ∈ (state.log entry.1).take window,
        old.firstSequence = state.producerSequence entry.1 →
        old.messages.length = entry.2.length → old.owner = call
  | _ => True

/-- `Unclaimed` is decidable by going through the entries of the call. -/
instance (calls : Nat → Call τ μ) (window : Nat) (state : State τ μ) (event : Event) :
    Decidable (Unclaimed calls window state event) :=
  match event with
  | .produce call => inferInstanceAs (Decidable (∀ entry ∈ (calls call).entries, _))
  | .attempt _ | .attemptFails _ _ _ | .lockTimeout _ _ | .deliver _ | .respond _ _
  | .fail _ _ _ => isTrue trivial

/-- A call claims its sequences. -/
theorem Ledger.produce (h : Ledger calls window state) {call retryCount : Nat}
    (hphase : state.phase call = .locked retryCount)
    (hunclaimed : Unclaimed calls window state (.produce call)) :
    Ledger calls window { state with
      producerSequence := (claim call state.producerSequence (calls call).entries).2
      phase := Function.update state.phase call (.producing retryCount
        (claim call state.producerSequence (calls call).entries).1) } := by
  have hholds : (state.phase call).Holds := by simp [hphase, SendPhase.Holds]
  -- the call that claims has no request yet, and no other call has one
  have hquiet : ∀ topicPartition, Consistent state.phase (state.log topicPartition)
      (state.producerSequence topicPartition) := by
    intro topicPartition
    refine h.quiet topicPartition fun other request outcome hrequest => ?_
    rw [h.exclusive hholds hrequest, hphase] at hrequest
    cases hrequest
  have hframe : ∀ other, (Function.update state.phase call (.producing retryCount
      (claim call state.producerSequence (calls call).entries).1) other).Resolved ↔
      (state.phase other).Resolved := by
    intro other
    by_cases heq : other = call
    · subst heq
      simp [hphase, SendPhase.Resolved]
    · rw [Function.update_of_ne heq]
  rw [claim_request call (calls call).nodup, claim_sequence] at *
  refine ⟨?_, h.content, h.once, ?_, ?_, ?_⟩
  · refine h.serves.congr (fun other => ?_) (fun other => ?_)
    all_goals
      by_cases heq : other = call
      · subst heq
        simp [hphase, SendPhase.Holds, SendPhase.Waits]
      · simp [Function.update_of_ne heq]
  · intro other hresolved
    exact h.written other ((hframe other).mp hresolved)
  · intro other request outcome hrequest
    by_cases heq : other = call
    · subst heq
      simp only [Function.update_self, SendPhase.request, Option.some.injEq,
        Prod.mk.injEq] at hrequest
      obtain ⟨rfl, rfl⟩ := hrequest
      refine ⟨by simp [Function.comp_def], ?_⟩
      intro entry hentry
      obtain ⟨given, hgiven, rfl⟩ := List.mem_map.mp hentry
      obtain ⟨hbounded, hothers⟩ := hunclaimed given hgiven
      exact
        { owner := rfl
          advanced := by
            dsimp only
            rw [updateAll_of_mem (calls other).nodup hgiven, rotate_of_lt hbounded]
          bounded := hbounded
          consistent := (hquiet given.1).congr fun batch _ => hframe batch.owner
          unclaimed := fun _ => hothers
          appended := by simp }
    · simp only [Function.update_of_ne heq] at hrequest
      exact absurd (h.exclusive hholds hrequest) heq
  · intro topicPartition hnone
    have hnotMem : topicPartition ∉ (calls call).entries.map Prod.fst := by
      have habsent := hnone call _ none (by simp only [Function.update_self]; rfl)
      simpa [Function.comp_def] using habsent
    dsimp only
    rw [updateAll_of_notMem hnotMem]
    exact (hquiet topicPartition).congr fun batch _ => hframe batch.owner

/-- Two batches of one call in one topic-partition carry the same messages. -/
theorem messages_unique {call : Nat} {topicPartition : τ} {first second : List μ}
    (hfirst : (topicPartition, first) ∈ (calls call).entries)
    (hsecond : (topicPartition, second) ∈ (calls call).entries) : first = second :=
  @InsertionMap.mem_entries_unique _ _ _ ⟨(calls call).entries, (calls call).nodup⟩ _ _ _ hfirst
    hsecond

/-- A request reaches the broker. -/
theorem Ledger.deliver (h : Ledger calls window state) {call retryCount : Nat}
    {request : List (τ × Batch μ)} (hphase : state.phase call = .producing retryCount request) :
    Ledger calls window { state with
      log := updateAll receive state.log request
      phase := Function.update state.phase call (.delivered retryCount request
        (request.all fun entry => acknowledges window (state.log entry.1) entry.2)) } := by
  have hrequest : (state.phase call).request = some (request, none) := by
    rw [hphase]
    rfl
  obtain ⟨hholds, hopen⟩ := SendPhase.of_request hrequest
  obtain ⟨hentries, hbatches⟩ := h.request call request none hrequest
  have hnodup := request_nodup hentries
  have hreceived : ∀ entry ∈ request, _ := fun entry hentry =>
    @receive_consistent _ _ window _ _ _ _ hopen (hbatches entry hentry).owner
      (fun old hold => (calls old.owner).nonempty _ (h.content entry.1 old hold))
      (hbatches entry hentry).consistent ((hbatches entry hentry).unclaimed rfl)
  have hlog : ∀ entry ∈ request, updateAll receive state.log request entry.1 =
      receive (state.log entry.1) entry.2 := fun entry hentry =>
    updateAll_of_mem hnodup hentry
  have hframe : ∀ other, (Function.update state.phase call (.delivered retryCount request
      (request.all fun entry => acknowledges window (state.log entry.1) entry.2)) other).Resolved ↔
      (state.phase other).Resolved := by
    intro other
    by_cases heq : other = call
    · subst heq
      simp [hphase, SendPhase.Resolved]
    · rw [Function.update_of_ne heq]
  -- a topic-partition is one of the request's, or its log does not change
  have hcases : ∀ topicPartition,
      (∃ batch, (topicPartition, batch) ∈ request) ∨
      topicPartition ∉ request.map Prod.fst ∧
        updateAll receive state.log request topicPartition = state.log topicPartition := by
    intro topicPartition
    by_cases hmem : topicPartition ∈ request.map Prod.fst
    · obtain ⟨⟨_, batch⟩, hentry, rfl⟩ := List.mem_map.mp hmem
      exact Or.inl ⟨batch, hentry⟩
    · exact Or.inr ⟨hmem, updateAll_of_notMem hmem⟩
  have howned : ∀ entry ∈ request, (entry.1, entry.2.messages) ∈ (calls call).entries := by
    intro entry hentry
    rw [← hentries]
    exact List.mem_map_of_mem (f := fun entry => (entry.1, entry.2.messages)) hentry
  refine ⟨?_, ?_, ?_, ?_, ?_, ?_⟩
  · refine h.serves.congr (fun other => ?_) (fun other => ?_)
    all_goals
      by_cases heq : other = call
      · subst heq
        simp [hphase, SendPhase.Holds, SendPhase.Waits]
      · simp [Function.update_of_ne heq]
  · intro topicPartition batch hbatch
    dsimp only at hbatch
    rcases hcases topicPartition with ⟨new, hentry⟩ | ⟨-, hsame⟩
    · rw [hlog _ hentry] at hbatch
      rcases (hreceived _ hentry).2.1 with ⟨happended, -⟩ | hkept
      · rw [happended] at hbatch
        rcases List.mem_cons.mp hbatch with rfl | hold
        · rw [(hbatches _ hentry).owner]
          exact howned _ hentry
        · exact h.content topicPartition batch hold
      · rw [hkept] at hbatch
        exact h.content topicPartition batch hbatch
    · rw [hsame] at hbatch
      exact h.content topicPartition batch hbatch
  · intro topicPartition
    dsimp only
    rcases hcases topicPartition with ⟨new, hentry⟩ | ⟨-, hsame⟩
    · rw [hlog _ hentry]
      rcases (hreceived _ hentry).2.1 with ⟨happended, hresolved⟩ | hkept
      · rw [happended, List.map_cons, List.nodup_cons]
        refine ⟨?_, h.once topicPartition⟩
        intro hmem
        obtain ⟨old, hold, howner⟩ := List.mem_map.mp hmem
        have := hresolved old hold
        rw [howner, (hbatches _ hentry).owner] at this
        exact hopen this
      · rw [hkept]
        exact h.once topicPartition
    · rw [hsame]
      exact h.once topicPartition
  · intro other hresolved entry hentry
    dsimp only
    obtain ⟨batch, hbatch, howner⟩ := h.written other ((hframe other).mp hresolved) entry hentry
    refine ⟨batch, ?_, howner⟩
    rcases hcases entry.1 with ⟨new, hnew⟩ | ⟨-, hsame⟩
    · rw [hlog _ hnew]
      rcases (hreceived _ hnew).2.1 with ⟨happended, -⟩ | hkept
      · rw [happended]
        exact List.mem_cons_of_mem _ hbatch
      · rw [hkept]
        exact hbatch
    · rw [hsame]
      exact hbatch
  · intro other otherRequest outcome hother
    by_cases heq : other = call
    · subst heq
      simp only [Function.update_self, SendPhase.request, Option.some.injEq,
        Prod.mk.injEq] at hother
      obtain ⟨rfl, rfl⟩ := hother
      refine ⟨hentries, fun entry hentry => ?_⟩
      have hbatch := hbatches entry hentry
      have hnew := hreceived entry hentry
      exact
        { owner := hbatch.owner
          advanced := hbatch.advanced
          bounded := hbatch.bounded
          consistent := by
            dsimp only
            rw [hlog entry hentry]
            exact hnew.1.congr fun batch _ => hframe batch.owner
          unclaimed := by simp
          appended := by
            intro haccepted
            simp only [Option.some.injEq, List.all_eq_true] at haccepted
            dsimp only
            rw [hlog entry hentry]
            exact hnew.2.2 (haccepted entry hentry) }
    · simp only [Function.update_of_ne heq] at hother
      exact absurd (h.exclusive hholds hother) heq
  · intro topicPartition hquiet
    have hnotMem : topicPartition ∉ request.map Prod.fst :=
      hquiet call request _ (by simp only [Function.update_self]; rfl)
    dsimp only
    rw [updateAll_of_notMem hnotMem]
    exact (h.quiet_of_notMem hrequest hnotMem).congr fun batch _ => hframe batch.owner

/-- A request was acknowledged: the call is resolved. -/
theorem Ledger.succeed (h : Ledger calls window state) {call retryCount : Nat}
    {request : List (τ × Batch μ)}
    (hphase : state.phase call = .delivered retryCount request true) :
    Ledger calls window (releaseBrokerLock state call .resolved) := by
  have hrequest : (state.phase call).request = some (request, some true) := by
    rw [hphase]
    rfl
  obtain ⟨hholds, hopen⟩ := SendPhase.of_request hrequest
  obtain ⟨hentries, hbatches⟩ := h.request call request _ hrequest
  have hframe := releaseBrokerLock_frame state call (.resolved : SendPhase τ μ)
  have hnoRequest : ∀ other otherRequest outcome,
      ((releaseBrokerLock state call .resolved).phase other).request ≠
        some (otherRequest, outcome) := by
    intro other otherRequest outcome hother
    rw [(hframe other).1] at hother
    by_cases heq : other = call
    · simp [heq, SendPhase.request] at hother
    · rw [Function.update_of_ne heq] at hother
      exact heq (h.exclusive hholds hother)
  have hresolvedCall : ((releaseBrokerLock state call .resolved).phase call).Resolved := by
    rw [(hframe call).2, Function.update_self]
    trivial
  have hresolvedOther : ∀ other, other ≠ call →
      (((releaseBrokerLock state call .resolved).phase other).Resolved ↔
        (state.phase other).Resolved) := by
    intro other hne
    rw [(hframe other).2, Function.update_of_ne hne]
  refine ⟨serves_releaseBrokerLock h.serves hholds id id, h.content, h.once, ?_, ?_, ?_⟩
  · intro other hresolved entry hentry
    by_cases heq : other = call
    · subst heq
      rw [← hentries] at hentry
      obtain ⟨sent, hsent, rfl⟩ := List.mem_map.mp hentry
      obtain ⟨newest, older, hlog, howner⟩ := (hbatches sent hsent).appended rfl
      refine ⟨newest, ?_, howner⟩
      show newest ∈ state.log sent.1
      rw [hlog]
      exact List.mem_cons_self
    · exact h.written other ((hresolvedOther other heq).mp hresolved) entry hentry
  · intro other otherRequest outcome hother
    exact absurd hother (hnoRequest other otherRequest outcome)
  · intro topicPartition _
    show Consistent _ (state.log topicPartition) (state.producerSequence topicPartition)
    by_cases hmem : topicPartition ∈ request.map Prod.fst
    · obtain ⟨⟨_, batch⟩, hentry, rfl⟩ := List.mem_map.mp hmem
      have hbatch := hbatches _ hentry
      obtain ⟨newest, older, hlog, howner⟩ := hbatch.appended rfl
      have hmessages : newest.messages = batch.messages := by
        have hnewest := h.content _ newest (by rw [hlog]; exact List.mem_cons_self)
        rw [howner] at hnewest
        refine @messages_unique _ _ calls _ _ _ _ _ hnewest ?_
        rw [← hentries]
        exact List.mem_map_of_mem (f := fun entry => (entry.1, entry.2.messages)) hentry
      -- the newest batch is the request's own, so it was its leftover; the next sequence is behind
      -- it
      rcases hbatch.consistent with ⟨-, hall⟩ | ⟨leftover, rest, hsplit, hfirst, -, -, hrest⟩
      · exact absurd (howner ▸ hall newest (by rw [hlog]; exact List.mem_cons_self)) hopen
      · rw [hlog] at hsplit
        cases hsplit
        refine Or.inl ⟨?_, ?_⟩
        · rw [hlog, nextSequence, hfirst, hmessages]
          exact hbatch.advanced.symm
        · intro old hold
          rw [hlog] at hold
          rcases List.mem_cons.mp hold with rfl | hold
          · rw [howner]
            exact hresolvedCall
          · by_cases heq : old.owner = call
            · rw [heq]
              exact hresolvedCall
            · exact (hresolvedOther _ heq).mpr (hrest old hold)
    · refine (h.quiet_of_notMem hrequest hmem).congr fun batch hbatch => ?_
      -- a batch of this call would be in its request
      refine hresolvedOther _ fun heq => hmem ?_
      rw [request_keys hentries, ← heq]
      exact List.mem_map_of_mem (h.content topicPartition batch hbatch)

/-- A request failed: its sequences are given back. -/
theorem Ledger.fail (h : Ledger calls window state) {call retryCount : Nat}
    {request : List (τ × Batch μ)} {outcome : Option Bool}
    (hrequest : (state.phase call).request = some (request, outcome)) (retries : Nat)
    (error : KafkaError) (recovery : Recovery) :
    Ledger calls window
      (produceFails retries state call retryCount request error recovery) := by
  obtain ⟨hholds, hopen⟩ := SendPhase.of_request hrequest
  obtain ⟨hentries, hbatches⟩ := h.request call request _ hrequest
  have hframe := releaseBrokerLock_frame
    { state with producerSequence := giveBack state.producerSequence request } call
    (afterError retries retryCount recovery error)
  have hnoRequest : ∀ other otherRequest otherOutcome,
      ((produceFails retries state call retryCount request error recovery).phase
        other).request ≠ some (otherRequest, otherOutcome) := by
    intro other otherRequest otherOutcome hother
    rw [produceFails, (hframe other).1] at hother
    by_cases heq : other = call
    · simp [heq] at hother
    · rw [Function.update_of_ne heq] at hother
      exact heq (h.exclusive hholds hother)
  have hresolved : ∀ other,
      ((produceFails retries state call retryCount request error recovery).phase
        other).Resolved ↔ (state.phase other).Resolved := by
    intro other
    rw [produceFails, (hframe other).2]
    by_cases heq : other = call
    · subst heq
      simp [hopen]
    · rw [Function.update_of_ne heq]
  refine ⟨?_, h.content, h.once, ?_, ?_, ?_⟩
  · exact @serves_releaseBrokerLock _ _
      { state with producerSequence := giveBack state.producerSequence request } h.serves _ hholds _
      (by simp) (by simp)
  · intro other hother
    exact h.written other ((hresolved other).mp hother)
  · intro other otherRequest otherOutcome hother
    exact absurd hother (hnoRequest other otherRequest otherOutcome)
  · intro topicPartition _
    show Consistent _ (state.log topicPartition)
      (giveBack state.producerSequence request topicPartition)
    rw [giveBack_eq]
    by_cases hmem : topicPartition ∈ request.map Prod.fst
    · obtain ⟨⟨_, batch⟩, hentry, rfl⟩ := List.mem_map.mp hmem
      have hbatch := hbatches _ hentry
      have hadvanced := hbatch.advanced
      have hbounded := hbatch.bounded
      dsimp only at hadvanced hbounded ⊢
      -- what was added to the sequence is taken back, and the batch may stay as a leftover
      rw [updateAll_of_mem (request_nodup hentries) hentry, rotate_of_lt (by omega),
        show state.producerSequence _ + -(batch.messages.length : Int) = batch.firstSequence by
          omega]
      exact hbatch.consistent.congr fun old _ => hresolved old.owner
    · rw [updateAll_of_notMem hmem]
      exact (h.quiet_of_notMem hrequest hmem).congr fun old _ => hresolved old.owner

omit [DecidableEq τ] in
/-- A call that has no messages resolves without a request. -/
theorem Ledger.resolve_empty (h : Ledger calls window state) {call retryCount : Nat}
    (hphase : state.phase call = .idle retryCount) (hempty : (calls call).entries = []) :
    Ledger calls window
      { state with phase := Function.update state.phase call .resolved } := by
  have hrequest : ∀ other, (Function.update state.phase call .resolved other).request =
      (state.phase other).request := by
    intro other
    by_cases heq : other = call
    · subst heq
      simp [hphase, SendPhase.request]
    · rw [Function.update_of_ne heq]
  -- a call without entries owns no batch
  have howner : ∀ topicPartition, ∀ batch ∈ state.log topicPartition, batch.owner ≠ call := by
    intro topicPartition batch hbatch heq
    have hcontent := h.content topicPartition batch hbatch
    rw [heq, hempty] at hcontent
    cases hcontent
  have hframe : ∀ topicPartition, ∀ batch ∈ state.log topicPartition,
      (Function.update state.phase call .resolved batch.owner).Resolved ↔
        (state.phase batch.owner).Resolved := by
    intro topicPartition batch hbatch
    rw [Function.update_of_ne (howner topicPartition batch hbatch)]
  refine ⟨?_, h.content, h.once, ?_, ?_, ?_⟩
  · refine h.serves.congr (fun other => ?_) (fun other => ?_)
    all_goals
      by_cases heq : other = call
      · subst heq
        simp [hphase, SendPhase.Holds, SendPhase.Waits]
      · simp [Function.update_of_ne heq]
  · intro other hresolved entry hentry
    by_cases heq : other = call
    · rw [heq, hempty] at hentry
      cases hentry
    · simp only [Function.update_of_ne heq] at hresolved
      exact h.written other hresolved entry hentry
  · intro other request outcome hother
    obtain ⟨hentries, hbatches⟩ := h.request other request outcome ((hrequest other).symm.trans
      hother)
    refine ⟨hentries, fun entry hentry => ?_⟩
    have hbatch := hbatches entry hentry
    exact
      { owner := hbatch.owner
        advanced := hbatch.advanced
        bounded := hbatch.bounded
        consistent := hbatch.consistent.congr (hframe entry.1)
        unclaimed := hbatch.unclaimed
        appended := hbatch.appended }
  · intro topicPartition hquiet
    refine (h.quiet topicPartition fun other request outcome hother => ?_).congr
      (hframe topicPartition)
    exact hquiet other request outcome ((hrequest other).trans hother)

omit [DecidableEq τ] in
/-- The phase of one call changes between phases without a request. -/
theorem Ledger.move (h : Ledger calls window state) {call : Nat} {phase : SendPhase τ μ}
    {lock : Lock Nat} (hrequest : phase.request = (state.phase call).request)
    (hresolved : phase.Resolved ↔ (state.phase call).Resolved)
    (hserves : lock.Serves (fun other => (Function.update state.phase call phase other).Holds)
      (fun other => (Function.update state.phase call phase other).Waits)) :
    Ledger calls window
      { state with lock := lock, phase := Function.update state.phase call phase } := by
  refine h.rephase rfl rfl (fun other => ?_) hserves
  by_cases heq : other = call
  · subst heq
    simp [hrequest, hresolved]
  · simp [Function.update_of_ne heq]

/-- Every step keeps the ledger, as long as no request claims the sequence of another call's
leftover. -/
theorem ledger_step (retries : Nat) (state : State τ μ) (event : Event) (next : State τ μ)
    (h : Ledger calls window state) (hunclaimed : Unclaimed calls window state event)
    (hstep : step calls window retries state event = some next) : Ledger calls window next := by
  cases event with
  | attempt call =>
      simp only [step] at hstep
      split at hstep
      · next retryCount hphase =>
          split at hstep
          · next hempty =>
              cases hstep
              exact h.resolve_empty hphase hempty
          · cases hstep
            have hacquire := @Utils.Lock.Serves.acquire _ _ _ _ h.serves call
              (by simp [hphase, SendPhase.Waits])
            generalize state.lock.acquire call = acquired at hacquire ⊢
            obtain ⟨lock, granted⟩ := acquired
            refine h.move ?_ ?_ (hacquire.congr (fun other => ?_) (fun other => ?_))
            · cases granted <;> simp [hphase, SendPhase.request]
            · cases granted <;> simp [hphase, SendPhase.Resolved]
            all_goals
              by_cases heq : other = call
              · subst heq
                cases granted <;> simp [hphase, SendPhase.Holds, SendPhase.Waits]
              · simp [heq]
      · cases hstep
  | attemptFails call error recovery =>
      simp only [step] at hstep
      split at hstep
      · next retryCount hphase =>
          cases hstep
          have hholds : ¬ (state.phase call).Holds := by rw [hphase]; exact id
          have hwaits : ¬ (state.phase call).Waits := by rw [hphase]; exact id
          refine h.move (by rw [hphase]; simp; rfl) (by rw [hphase]; simp; exact id)
            (h.serves.congr (fun other => ?_) (fun other => ?_))
          all_goals
            by_cases heq : other = call
            · subst heq
              simp [hholds, hwaits]
            · simp [Function.update_of_ne heq]
      · cases hstep
  | lockTimeout call recovery =>
      simp only [step] at hstep
      split at hstep
      · next retryCount hphase =>
          cases hstep
          have hholds : ¬ (state.phase call).Holds := by rw [hphase]; exact id
          refine h.move (by rw [hphase]; simp; rfl) (by rw [hphase]; simp; exact id)
            ((h.serves.expire call).congr (fun other => ?_) (fun other => ?_))
          all_goals
            by_cases heq : other = call
            · subst heq
              simp [hholds]
            · simp [heq]
      · cases hstep
  | produce call =>
      simp only [step] at hstep
      split at hstep
      · next retryCount hphase =>
          cases hstep
          exact h.produce hphase hunclaimed
      · cases hstep
  | deliver call =>
      simp only [step] at hstep
      split at hstep
      · next retryCount request hphase =>
          cases hstep
          exact h.deliver hphase
      · cases hstep
  | respond call recovery =>
      simp only [step] at hstep
      split at hstep
      · next retryCount request accepted hphase =>
          split at hstep
          · next haccepted =>
              cases hstep
              subst haccepted
              exact h.succeed hphase
          · cases hstep
            exact h.fail (by rw [hphase]; rfl) retries outOfOrderSequence recovery
      · cases hstep
  | fail call error recovery =>
      simp only [step] at hstep
      split at hstep
      · next retryCount request hphase =>
          cases hstep
          exact h.fail (by rw [hphase]; rfl) retries error recovery
      · next retryCount request accepted hphase =>
          cases hstep
          exact h.fail (by rw [hphase]; rfl) retries error recovery
      · cases hstep

/-- The batches of a call in a topic-partition, when no call has two. -/
theorem filter_owner {log : List (Batch μ)} (hnodup : (log.map Batch.owner).Nodup)
    {batch : Batch μ} (hmem : batch ∈ log) :
    log.filter (fun other => other.owner = batch.owner) = [batch] := by
  induction log with
  | nil => simp at hmem
  | cons first log ih =>
      simp only [List.map_cons, List.nodup_cons] at hnodup
      rcases List.mem_cons.mp hmem with rfl | hrest
      · rw [List.filter_cons_of_pos (by simp), List.filter_eq_nil_iff.mpr ?_]
        intro other hother heq
        exact hnodup.1 (List.mem_map.mpr ⟨other, hother, by simpa using heq⟩)
      · rw [List.filter_cons_of_neg ?_, ih hnodup.2 hrest]
        intro heq
        exact hnodup.1 (List.mem_map.mpr ⟨batch, hrest, by simpa [eq_comm] using heq⟩)

/-- Idempotent sends are exactly-once in every run in which no request claims the sequence and
record count of another call's leftover: a resolved call has each of its batches once in the
log, with all its messages. -/
theorem idempotent_exactlyOnce (calls : Nat → Call τ μ) (window retries : Nat)
    (events : List Event) (final : State τ μ)
    (hrun : run (step calls window retries) State.initial events = some final)
    (hunclaimed : Meets (step calls window retries) (Unclaimed calls window) State.initial
      events)
    (call : Nat) (hresolved : final.phase call = .resolved) :
    ∀ entry ∈ (calls call).entries, ∃ batch,
      (final.log entry.1).filter (fun other => other.owner = call) = [batch] ∧
      batch.messages = entry.2 := by
  have hledger := invariant_of_meets (ledger_step retries) (ledger_initial calls window)
    hunclaimed hrun
  intro entry hentry
  have hdone : (final.phase call).Resolved := by
    rw [hresolved]
    trivial
  obtain ⟨batch, hbatch, howner⟩ := hledger.written call hdone entry hentry
  refine ⟨batch, ?_, ?_⟩
  · rw [← howner]
    exact filter_owner (hledger.once entry.1) hbatch
  · have hcontent := hledger.content entry.1 batch hbatch
    rw [howner] at hcontent
    exact @messages_unique _ _ calls _ _ _ _ _ hcontent hentry

end Steps

/-! ## A lost response -/

/-- Two calls, each with one message for the same topic-partition. -/
def twoCalls (call : Nat) : Call String Nat :=
  { entries := [("topic-0", [call])]
    nodup := by simp
    nonempty := by simp }

/-- The error of a connection that closed before the response came. -/
def connectionLost : KafkaError :=
  { name := .kafkaJSConnectionClosedError, message := "Closed connection" }

/-- One attempt of a call that succeeds. -/
def successfulAttempt (call : Nat) : List Event :=
  [.attempt call, .produce call, .deliver call, .respond call ⟨true, none⟩]

/-- One attempt of a call whose batch is appended and whose response is lost. -/
def lostResponse (call : Nat) : List Event :=
  [.attempt call, .produce call, .deliver call, .fail call connectionLost ⟨true, none⟩]

/-- The call whose response was lost retries at once: the broker recognises the batch. -/
theorem idempotent_exactlyOnce_retry :
    ∃ final, run (step twoCalls 5 5) State.initial
        (lostResponse 0 ++ successfulAttempt 0 ++ successfulAttempt 1) = some final ∧
      ∀ entry ∈ (twoCalls 0).entries, ∃ batch,
        (final.log entry.1).filter (fun other => other.owner = 0) = [batch] ∧
        batch.messages = entry.2 := by
  have hphase : (run (step twoCalls 5 5) State.initial
      (lostResponse 0 ++ successfulAttempt 0 ++ successfulAttempt 1)).map
      (fun final => final.phase 0) = some .resolved := by
    rfl
  obtain ⟨final, hrun, hresolved⟩ := Option.map_eq_some_iff.mp hphase
  exact ⟨final, hrun, idempotent_exactlyOnce _ _ _ _ _ hrun (by decide) 0 hresolved⟩

/-- Between the lost response of one call and its retry, another call claims the sequence that
was given back: its batch is taken for the first one's, and its message is never appended. -/
theorem idempotent_claims_leftover :
    ∃ final, run (step twoCalls 5 5) State.initial (lostResponse 0 ++ successfulAttempt 1) =
        some final ∧
      final.phase 1 = .resolved ∧
      (final.log "topic-0").filter (fun other => other.owner = 1) = [] := by
  have hend : (run (step twoCalls 5 5) State.initial
      (lostResponse 0 ++ successfulAttempt 1)).map
      (fun final => (final.phase 1, (final.log "topic-0").filter fun other => other.owner = 1)) =
      some (.resolved, []) := by
    rfl
  obtain ⟨final, hrun, heq⟩ := Option.map_eq_some_iff.mp hend
  exact ⟨final, hrun, congrArg Prod.fst heq, congrArg Prod.snd heq⟩

end KafkaJs.Producer.Idempotent
