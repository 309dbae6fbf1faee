import Mathlib.Data.List.Forall2

/-!
# Computations that can fail

A sequence in `Except` succeeds in both of its parts or fails in one. `items.mapM f` succeeds with
the results of `f` on all items, or fails because `f` fails on one of them. `items.foldlM f` passes
a value on from item to item.
-/

namespace KafkaJs.Data

variable {α β ε : Type} {f : α → Except ε β} {items : List α} {results : List β}

/-- After a value the rest runs on it. -/
theorem ok_bind (value : α) (next : α → Except ε β) :
    (Except.ok value >>= next) = next value := rfl

/-- After an error nothing runs. -/
theorem error_bind (error : ε) (next : α → Except ε β) :
    (Except.error error >>= next) = Except.error error := rfl

/-- A sequence that succeeds succeeds in both of its parts. -/
theorem bind_eq_ok {first : Except ε α} {next : α → Except ε β} {result : β}
    (h : (first >>= next) = .ok result) : ∃ value, first = .ok value ∧ next value = .ok result := by
  cases first with
  | error error => cases h
  | ok value => exact ⟨value, rfl, h⟩

/-- A result that is there is that of a success. -/
theorem ok_of_isSome {result : Except ε α} (h : result.toOption.isSome) :
    ∃ value, result = .ok value := by
  cases result with
  | error error => cases h
  | ok value => exact ⟨value, rfl⟩

/-- A list whose items all succeed is mapped. -/
theorem mapM_ok {g : α → β} (h : ∀ item ∈ items, f item = .ok (g item)) :
    items.mapM f = .ok (items.map g) := by
  induction items with
  | nil => rfl
  | cons item items ih =>
      obtain ⟨hitem, hitems⟩ := List.forall_mem_cons.mp h
      rw [List.mapM_cons, hitem, ih hitems]
      rfl

/-- The results are those of the items, one by one. -/
theorem forall₂_of_mapM_ok (h : items.mapM f = .ok results) :
    List.Forall₂ (fun item result => f item = .ok result) items results := by
  induction items generalizing results with
  | nil =>
      cases h
      exact List.Forall₂.nil
  | cons item items ih =>
      rw [List.mapM_cons] at h
      obtain ⟨result, hitem, h⟩ := bind_eq_ok h
      obtain ⟨others, hitems, h⟩ := bind_eq_ok h
      cases h
      exact List.Forall₂.cons hitem (ih hitems)

/-- The results, where those of the single items are known. -/
theorem eq_map_of_mapM_ok {g : α → β} (h : items.mapM f = .ok results)
    (hf : ∀ item ∈ items, ∀ result, f item = .ok result → result = g item) :
    results = items.map g := by
  have hall := forall₂_of_mapM_ok h
  clear h
  induction hall with
  | nil => rfl
  | cons hfirst _ ih =>
      obtain ⟨hitem, hitems⟩ := List.forall_mem_cons.mp hf
      rw [List.map_cons, ← hitem _ hfirst, ← ih hitems]

/-- Each item of the first list stands against one of the second. -/
theorem exists_of_forall₂ {R : α → β → Prop} (h : List.Forall₂ R items results) {item : α}
    (hitem : item ∈ items) : ∃ result ∈ results, R item result := by
  induction h with
  | nil => exact absurd hitem List.not_mem_nil
  | @cons first result _ others hfirst _ ih =>
      rcases List.mem_cons.mp hitem with heq | hrest
      · exact ⟨result, List.mem_cons_self, heq ▸ hfirst⟩
      · obtain ⟨found, hfound, hitem⟩ := ih hrest
        exact ⟨found, List.mem_cons_of_mem result hfound, hitem⟩

/-- The result of an item is among the results. -/
theorem exists_result_of_mapM_ok (h : items.mapM f = .ok results) {item : α}
    (hitem : item ∈ items) : ∃ result ∈ results, f item = .ok result :=
  exists_of_forall₂ (forall₂_of_mapM_ok h) hitem

/-- Each result is that of an item. -/
theorem exists_item_of_mapM_ok (h : items.mapM f = .ok results) {result : β}
    (hresult : result ∈ results) : ∃ item ∈ items, f item = .ok result :=
  exists_of_forall₂ (forall₂_of_mapM_ok h).flip hresult

/-- Every item has a result. -/
theorem of_mapM_ok (h : items.mapM f = .ok results) :
    ∀ item ∈ items, ∃ result, f item = .ok result := by
  intro item hitem
  obtain ⟨result, _, hresult⟩ := exists_result_of_mapM_ok h hitem
  exact ⟨result, hresult⟩

/-- Mapping fails where one of the items does. -/
theorem mapM_error {item : α} (hmem : item ∈ items) (h : ∃ error, f item = .error error) :
    ∃ error, items.mapM f = .error error := by
  cases hmap : items.mapM f with
  | error error => exact ⟨error, rfl⟩
  | ok results =>
      obtain ⟨result, hresult⟩ := of_mapM_ok hmap item hmem
      obtain ⟨error, herror⟩ := h
      cases hresult.symm.trans herror

/-- A value, or a fault in its place. -/
def orFault (fault : Option ε) (value : α) : Except ε α :=
  match fault with
  | none => .ok value
  | some error => .error error

/-- Without a fault the value is returned. -/
@[simp] theorem orFault_none (value : α) : orFault (none : Option ε) value = .ok value := rfl

/-- A fault is raised instead of the value. -/
@[simp] theorem orFault_some (error : ε) (value : α) :
    orFault (some error) value = .error error := rfl

/-- A map over items that may have faults fails with the first fault. -/
theorem mapM_orFault (fault : α → Option ε) (g : α → β) :
    (items.mapM fun item => orFault (fault item) (g item)) =
      orFault (items.findSome? fault) (items.map g) := by
  induction items with
  | nil => rfl
  | cons item items ih =>
      rw [List.mapM_cons, ih, List.findSome?_cons]
      cases fault item with
      | some error => rfl
      | none => cases items.findSome? fault <;> rfl

/-! ## Folds -/

variable {step : β → α → Except ε β} {start result : β}

/-- A fold succeeds where every step does. -/
theorem foldlM_ok (h : ∀ item ∈ items, ∀ value, ∃ next, step value item = .ok next) (start : β) :
    ∃ result, items.foldlM step start = .ok result := by
  induction items generalizing start with
  | nil => exact ⟨start, rfl⟩
  | cons item items ih =>
      obtain ⟨hitem, hitems⟩ := List.forall_mem_cons.mp h
      obtain ⟨next, hnext⟩ := hitem start
      obtain ⟨result, hresult⟩ := ih hitems next
      exact ⟨result, by rw [List.foldlM_cons, hnext]; exact hresult⟩

/-- What every step preserves holds of the result. -/
theorem invariant_of_foldlM_ok {Inv : β → Prop}
    (hpreserved : ∀ value item next, Inv value → step value item = .ok next → Inv next)
    (hstart : Inv start) (h : items.foldlM step start = .ok result) : Inv result := by
  induction items generalizing start with
  | nil =>
      cases h
      exact hstart
  | cons item items ih =>
      rw [List.foldlM_cons] at h
      obtain ⟨next, hnext, hrest⟩ := bind_eq_ok h
      exact ih (hpreserved start item next hstart hnext) hrest

end KafkaJs.Data
