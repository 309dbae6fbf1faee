import Mathlib.Data.List.Nodup

/-!
# The lock of `utils/lock.js`

A caller of `acquire` gets the lock at once if it is free, and is otherwise appended to the
waiters, from which its timer may remove it again. `release` frees the lock and lets the first
waiter try, which takes it in the same turn. `Serves` relates a lock to the callers that hold it
and those that wait for it; every operation keeps the relation.
-/

namespace KafkaJs.Utils

/-- A lock with its waiters in the order in which they came. -/
structure Lock (ω : Type) where
  locked : Bool
  waiting : List ω
  deriving DecidableEq, Repr

namespace Lock

variable {ω : Type}

/-- A new lock. -/
def free : Lock ω := ⟨false, []⟩

/-- `acquire`, with whether the caller gets the lock at once. -/
def acquire (lock : Lock ω) (caller : ω) : Lock ω × Bool :=
  if lock.locked then ({ lock with waiting := lock.waiting ++ [caller] }, false)
  else ({ lock with locked := true }, true)

/-- The timer of a waiter fires. -/
def expire [DecidableEq ω] (lock : Lock ω) (caller : ω) : Lock ω :=
  { lock with waiting := lock.waiting.erase caller }

/-- `release`, with the waiter that takes the lock. -/
def release (lock : Lock ω) : Lock ω × Option ω :=
  match lock.waiting with
  | [] => (⟨false, []⟩, none)
  | next :: rest => (⟨true, rest⟩, some next)

/-- The callers that hold the lock and those that wait for it are as the lock says. -/
structure Serves (lock : Lock ω) (holds waits : ω → Prop) : Prop where
  /-- A free lock has no holder and no waiters. -/
  free : lock.locked = false → (∀ caller, ¬ holds caller) ∧ lock.waiting = []
  /-- At most one caller holds the lock. -/
  exclusive : ∀ first second, holds first → holds second → first = second
  waiting : ∀ caller, caller ∈ lock.waiting ↔ waits caller
  nodup : lock.waiting.Nodup

variable {lock : Lock ω} {holds waits : ω → Prop}

/-- A free lock serves nobody. -/
theorem serves_free : Serves (free : Lock ω) (fun _ => False) (fun _ => False) := by
  refine ⟨?_, ?_, ?_, List.nodup_nil⟩ <;> simp [Lock.free]

/-- The relation is about which callers hold and wait, however that is said. -/
theorem Serves.congr (h : Serves lock holds waits) {holds' waits' : ω → Prop}
    (hholds : ∀ caller, holds' caller ↔ holds caller)
    (hwaits : ∀ caller, waits' caller ↔ waits caller) : Serves lock holds' waits' := by
  rw [show holds' = holds from funext fun caller => propext (hholds caller),
    show waits' = waits from funext fun caller => propext (hwaits caller)]
  exact h

/-- A new caller holds the lock or waits for it. -/
theorem Serves.acquire (h : Serves lock holds waits) {caller : ω} (hwaits : ¬ waits caller) :
    Serves (lock.acquire caller).1
      (fun other => holds other ∨ (lock.acquire caller).2 = true ∧ other = caller)
      (fun other => waits other ∨ (lock.acquire caller).2 = false ∧ other = caller) := by
  unfold Lock.acquire
  cases hlocked : lock.locked with
  | true =>
      refine ⟨?_, ?_, ?_, ?_⟩
      · simp
      · simpa using h.exclusive
      · intro other
        simp [h.waiting]
      · refine h.nodup.append (List.nodup_singleton _) ?_
        rw [List.disjoint_singleton, h.waiting]
        exact hwaits
  | false =>
      obtain ⟨hnone, -⟩ := h.free hlocked
      refine ⟨by simp, ?_, ?_, h.nodup⟩
      · simp [hnone]
      · intro other
        simp [h.waiting]

/-- A waiter gives up. -/
theorem Serves.expire [DecidableEq ω] (h : Serves lock holds waits) (caller : ω) :
    Serves (lock.expire caller) holds (fun other => waits other ∧ other ≠ caller) := by
  refine ⟨?_, h.exclusive, ?_, h.nodup.erase _⟩
  · intro hlocked
    obtain ⟨hnone, hempty⟩ := h.free hlocked
    exact ⟨hnone, by simp [Lock.expire, hempty]⟩
  · intro other
    rw [Lock.expire, h.nodup.mem_erase_iff, h.waiting, and_comm]

/-- The lock goes to a waiter. -/
theorem mem_waiting_of_release {caller : ω} (h : lock.release.2 = some caller) :
    caller ∈ lock.waiting := by
  unfold release at h
  split at h
  · cases h
  · next hwaiting =>
      cases h
      exact hwaiting ▸ List.mem_cons_self

/-- The holder gives the lock to the first waiter, which is then the only holder. -/
theorem Serves.release (h : Serves lock holds waits) :
    Serves lock.release.1 (fun other => lock.release.2 = some other)
      (fun other => waits other ∧ lock.release.2 ≠ some other) := by
  unfold Lock.release
  cases hwaiting : lock.waiting with
  | nil =>
      refine ⟨by simp, by simp, ?_, List.nodup_nil⟩
      intro other
      simp [← h.waiting, hwaiting]
  | cons next rest =>
      have hnodup := h.nodup
      rw [hwaiting, List.nodup_cons] at hnodup
      refine ⟨by simp, ?_, ?_, hnodup.2⟩
      · intro first second hfirst hsecond
        exact Option.some.inj (hfirst.symm.trans hsecond)
      · intro other
        simp only [← h.waiting, hwaiting, List.mem_cons, ne_eq, Option.some.injEq]
        refine ⟨fun hmem => ⟨Or.inr hmem, ?_⟩, ?_⟩
        · intro heq
          exact hnodup.1 (heq ▸ hmem)
        · rintro ⟨heq | hmem, hne⟩
          · exact absurd heq.symm hne
          · exact hmem

/-- The holder is done and releases the lock: it neither holds it nor waits for it afterwards, the
waiter that takes the lock holds it, and the others do as before. -/
theorem Serves.finish (h : Serves lock holds waits) {caller : ω} (hcaller : holds caller)
    (hidle : ¬ waits caller) {holds' waits' : ω → Prop} (hdone : ¬ holds' caller ∧ ¬ waits' caller)
    (hnext : ∀ next, lock.release.2 = some next → holds' next ∧ ¬ waits' next)
    (hothers : ∀ other, other ≠ caller → lock.release.2 ≠ some other →
      (holds' other ↔ holds other) ∧ (waits' other ↔ waits other)) :
    Serves lock.release.1 holds' waits' := by
  refine h.release.congr ?_ ?_
  · intro other
    by_cases hother : lock.release.2 = some other
    · exact iff_of_true (hnext other hother).1 hother
    · refine iff_of_false (fun hholds => ?_) hother
      by_cases heq : other = caller
      · exact hdone.1 (heq ▸ hholds)
      · exact heq (h.exclusive other caller ((hothers other heq hother).1.mp hholds) hcaller)
  · intro other
    by_cases hother : lock.release.2 = some other
    · exact iff_of_false (hnext other hother).2 fun hwaits => hwaits.2 hother
    · by_cases heq : other = caller
      · rw [heq]
        exact iff_of_false hdone.2 fun hwaits => hidle hwaits.1
      · rw [(hothers other heq hother).2]
        exact (and_iff_left hother).symm

end Lock

end KafkaJs.Utils
