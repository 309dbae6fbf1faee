import KafkaJs.Data.Traversal
import Mathlib.Algebra.GroupWithZero.Nat
import Mathlib.Data.List.Infix

/-!
# Operations that append to a log

A state stands for a log of items. `Appends` says that an operation extends the log by given items
as long as the log stays below a limit, and `Rejects` that it fails in every state. A sequence of
operations, each of which does one or the other, appends what its operations append, or fails if
one of them does: `appends_foldlM` and `rejects_foldlM`.
-/

namespace KafkaJs.Execution

open KafkaJs.Data

variable {σ ι β ε : Type}

/-- Below the limit, the operation succeeds and the log of the state is extended by `items`. -/
def Appends (Represents : σ → List β → Prop) (limit : Nat) (op : σ → Except ε σ)
    (items : List β) : Prop :=
  ∀ state log, Represents state log → log.length + items.length < limit →
    ∃ next, op state = .ok next ∧ Represents next (log ++ items)

/-- The operation fails in every state. -/
def Rejects (op : σ → Except ε σ) : Prop := ∀ state, ∃ error, op state = .error error

/-- The items of all operations, in order, if each of them has some. -/
def contents (content : ι → Option (List β)) (ops : List ι) : Option (List β) :=
  (ops.mapM content).map List.flatten

/-- The number of items of the operations; one without items counts for nothing. -/
def weight (content : ι → Option (List β)) (ops : List ι) : Nat :=
  (ops.map fun op => ((content op).getD []).length).sum

variable {Represents : σ → List β → Prop} {limit : Nat} {first second : σ → Except ε σ}
  {head tail : List β} {content : ι → Option (List β)} {ops : List ι} {items : List β}

/-! ## Two operations -/

/-- An operation that does nothing appends nothing. -/
theorem Appends.pure : Appends Represents limit (Pure.pure : σ → Except ε σ) [] := by
  intro state log hlog _
  exact ⟨state, rfl, by rwa [List.append_nil]⟩

/-- Two operations, one after the other. -/
theorem Appends.bind (hfirst : Appends Represents limit first head)
    (hsecond : Appends Represents limit second tail) :
    Appends Represents limit (fun state => first state >>= second) (head ++ tail) := by
  intro state log hlog hlimit
  rw [List.length_append] at hlimit
  obtain ⟨middle, hmiddle, hhead⟩ := hfirst state log hlog (by omega)
  obtain ⟨next, hnext, htail⟩ :=
    hsecond middle (log ++ head) hhead (by rw [List.length_append]; omega)
  rw [List.append_assoc] at htail
  refine ⟨next, ?_, htail⟩
  show (first state >>= second) = .ok next
  rw [hmiddle, ok_bind, hnext]

/-- An operation that fails ends the sequence. -/
theorem Rejects.bind_left (hfirst : Rejects first) :
    Rejects (fun state => first state >>= second) := by
  intro state
  obtain ⟨error, herror⟩ := hfirst state
  refine ⟨error, ?_⟩
  show (first state >>= second) = .error error
  rw [herror, error_bind]

/-- Whatever comes before an operation that fails, the sequence fails. -/
theorem Rejects.bind_right (hsecond : Rejects second) :
    Rejects (fun state => first state >>= second) := by
  intro state
  show ∃ error, (first state >>= second) = .error error
  cases first state with
  | error error => exact ⟨error, rfl⟩
  | ok middle => exact hsecond middle

/-! ## Contents -/

/-- No operation appends nothing. -/
@[simp] theorem contents_nil : contents content [] = some [] := rfl

/-- The contents of a list of operations are those of the first, then those of the others. -/
theorem contents_cons (op : ι) (ops : List ι) :
    contents content (op :: ops) =
      (content op).bind fun head => (contents content ops).map fun tail => head ++ tail := by
  rw [contents, List.mapM_cons]
  cases content op with
  | none => rfl
  | some head =>
      rw [contents]
      cases ops.mapM content <;> rfl

/-- A list of operations has contents exactly when the first and the others have. -/
theorem contents_cons_eq_some {op : ι} :
    contents content (op :: ops) = some items ↔
      ∃ head tail, content op = some head ∧ contents content ops = some tail ∧
        items = head ++ tail := by
  rw [contents_cons]
  simp only [Option.bind_eq_some_iff, Option.map_eq_some_iff]
  constructor
  · rintro ⟨head, hhead, tail, htail, rfl⟩
    exact ⟨head, tail, hhead, htail, rfl⟩
  · rintro ⟨head, tail, hhead, htail, rfl⟩
    exact ⟨head, hhead, tail, htail, rfl⟩

/-- A list of operations has no contents exactly when the first or the others have none. -/
theorem contents_cons_eq_none {op : ι} :
    contents content (op :: ops) = none ↔ content op = none ∨ contents content ops = none := by
  rw [contents_cons]
  cases content op <;> simp

/-- Where there are contents, their length is the weight. -/
theorem length_contents (h : contents content ops = some items) :
    items.length = weight content ops := by
  induction ops generalizing items with
  | nil =>
      cases h
      rfl
  | cons op ops ih =>
      obtain ⟨head, tail, hhead, htail, rfl⟩ := contents_cons_eq_some.mp h
      have hrest := ih htail
      simp only [weight, List.map_cons, List.sum_cons, hhead, Option.getD_some] at hrest ⊢
      rw [List.length_append, hrest]

/-- The operations done so far weigh no more than all of them. -/
theorem weight_mono {done : List ι} (h : done <+: ops) :
    weight content done ≤ weight content ops := by
  obtain ⟨rest, rfl⟩ := h
  rw [weight, weight, List.map_append, List.sum_append]
  exact Nat.le_add_right _ _

/-! ## Sequences -/

variable {step : ι → σ → Except ε σ}

/-- Operations in order append their contents. -/
theorem appends_foldlM
    (hstep : ∀ op items, content op = some items → Appends Represents limit (step op) items)
    (h : contents content ops = some items) :
    Appends Represents limit (ops.foldlM fun state op => step op state) items := by
  induction ops generalizing items with
  | nil =>
      cases h
      exact Appends.pure
  | cons op ops ih =>
      obtain ⟨head, tail, hhead, htail, rfl⟩ := contents_cons_eq_some.mp h
      exact (hstep op head hhead).bind (ih htail)

/-- A sequence fails where one of the operations has nothing to append and fails. -/
theorem rejects_foldlM (hstep : ∀ op, content op = none → Rejects (step op))
    (h : contents content ops = none) :
    Rejects (ops.foldlM fun state op => step op state) := by
  induction ops with
  | nil => cases h
  | cons op ops ih =>
      rcases contents_cons_eq_none.mp h with hop | hops
      · exact (hstep op hop).bind_left
      · exact (ih hops).bind_right

end KafkaJs.Execution
