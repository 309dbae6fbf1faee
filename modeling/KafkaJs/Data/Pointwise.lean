import Mathlib.Data.List.Nodup
import Mathlib.Logic.Function.Basic

/-!
# Updating a family at several places

`updateAll` walks over a list of places and updates the family there one after the other. When
the places are distinct the updates do not see each other: `updateAll_of_mem`. `assigned` stores
values at places, so that the last one wins.
-/

namespace KafkaJs.Data

variable {τ α ν : Type} [DecidableEq τ]

/-- Update the family at the listed places, in order. -/
def updateAll (change : α → ν → α) (family : τ → α) (entries : List (τ × ν)) : τ → α :=
  entries.foldl (fun family entry =>
    Function.update family entry.1 (change (family entry.1) entry.2)) family

/-- The first entry is applied before the others. -/
theorem updateAll_cons (change : α → ν → α) (family : τ → α) (entry : τ × ν)
    (entries : List (τ × ν)) :
    updateAll change family (entry :: entries) =
      updateAll change
        (Function.update family entry.1 (change (family entry.1) entry.2)) entries :=
  rfl

/-- Other places keep their value. -/
theorem updateAll_of_notMem {change : α → ν → α} {entries : List (τ × ν)} {family : τ → α}
    {place : τ} (h : place ∉ entries.map Prod.fst) :
    updateAll change family entries place = family place := by
  induction entries generalizing family with
  | nil => rfl
  | cons entry entries ih =>
      simp only [List.map_cons, List.mem_cons, not_or] at h
      rw [updateAll_cons, ih h.2, Function.update_of_ne h.1]

/-- A listed place is updated once, from its old value. -/
theorem updateAll_of_mem {change : α → ν → α} {entries : List (τ × ν)} {family : τ → α}
    (hnodup : (entries.map Prod.fst).Nodup) {place : τ} {value : ν}
    (hmem : (place, value) ∈ entries) :
    updateAll change family entries place = change (family place) value := by
  induction entries generalizing family with
  | nil => simp at hmem
  | cons entry entries ih =>
      simp only [List.map_cons, List.nodup_cons] at hnodup
      rw [updateAll_cons]
      rcases List.mem_cons.mp hmem with rfl | hrest
      · rw [updateAll_of_notMem hnodup.1, Function.update_self]
      · have hne : place ≠ entry.1 := by
          intro heq
          exact hnodup.1 (heq ▸ List.mem_map_of_mem hrest)
        rw [ih hnodup.2 hrest, Function.update_of_ne hne]

/-- Store the values at the listed places, in order. -/
def assigned (start : τ → α) (entries : List (τ × α)) : τ → α :=
  updateAll (fun _ value => value) start entries

/-- A place at which something is stored has one of the values stored there. -/
theorem assigned_mem {start : τ → α} {entries : List (τ × α)} {place : τ}
    (h : place ∈ entries.map Prod.fst) : (place, assigned start entries place) ∈ entries := by
  induction entries generalizing start with
  | nil => exact absurd h List.not_mem_nil
  | cons entry entries ih =>
      show (place, assigned (Function.update start entry.1 entry.2) entries place) ∈ _
      by_cases hrest : place ∈ entries.map Prod.fst
      · exact List.mem_cons_of_mem entry (ih hrest)
      · have hplace : place = entry.1 := (List.mem_cons.mp h).resolve_right hrest
        have hkept : assigned (Function.update start entry.1 entry.2) entries place =
            Function.update start entry.1 entry.2 place := updateAll_of_notMem hrest
        rw [hkept, hplace, Function.update_self]
        exact List.mem_cons_self

/-- A place has its old value or one that is stored there. -/
theorem assigned_cases (start : τ → α) (entries : List (τ × α)) (place : τ) :
    (place, assigned start entries place) ∈ entries ∨
      place ∉ entries.map Prod.fst ∧ assigned start entries place = start place := by
  by_cases h : place ∈ entries.map Prod.fst
  · exact Or.inl (assigned_mem h)
  · exact Or.inr ⟨h, updateAll_of_notMem h⟩

/-- Where nothing is stored, the old value stays; else the value stored last is there. -/
theorem assigned_map (store : ν → α) (start : τ → α) (entries : List (τ × ν)) (place : τ) :
    assigned start (entries.map fun entry => (entry.1, store entry.2)) place =
      ((assigned (fun _ => none) (entries.map fun entry => (entry.1, some entry.2)) place).map
        store).getD (start place) := by
  -- The entries behind the first one decide, unless they leave the place out.
  have hsplit : ∀ {β : Type} (store : ν → β) (start : τ → β),
      assigned start (entries.map fun entry => (entry.1, store entry.2)) place =
        ((entries.reverse.find? fun entry => entry.1 = place).map fun entry =>
          store entry.2).getD (start place) := by
    intro β store
    induction entries with
    | nil => exact fun _ => rfl
    | cons entry entries ih =>
        intro start
        show assigned (Function.update start entry.1 (store entry.2)) _ place = _
        rw [ih, List.reverse_cons, List.find?_append, Function.update_apply]
        cases entries.reverse.find? fun entry => entry.1 = place with
        | some found => rfl
        | none =>
            by_cases hplace : place = entry.1
            · simp [hplace]
            · simp [hplace, Ne.symm hplace]
  rw [hsplit, hsplit]
  cases entries.reverse.find? fun entry => entry.1 = place with
  | none => rfl
  | some found => rfl

end KafkaJs.Data
