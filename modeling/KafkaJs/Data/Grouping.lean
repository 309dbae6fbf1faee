import Mathlib.Data.List.Nodup
import Mathlib.Data.List.Perm.Basic

/-!
# Regrouping a list by a key

Collecting the elements of a list class by class loses nothing and repeats nothing when the
classes are distinct: `flatMap_filter_perm`.
-/

namespace KafkaJs.Data

variable {α β : Type} [DecidableEq β]

/-- The classes of distinct keys, concatenated, hold the elements whose key is among them. -/
theorem flatMap_filter_perm (key : α → β) (list : List α) {keys : List β} (hnodup : keys.Nodup) :
    (keys.flatMap fun k => list.filter fun x => key x = k).Perm
      (list.filter fun x => key x ∈ keys) := by
  induction keys with
  | nil => simp
  | cons k keys ih =>
      obtain ⟨hnotin, hrest⟩ := List.nodup_cons.mp hnodup
      rw [List.flatMap_cons]
      refine ((ih hrest).append_left _).trans ?_
      have hsplit := List.filter_append_perm (fun x => decide (key x = k))
        (list.filter fun x => key x ∈ k :: keys)
      rw [List.filter_filter, List.filter_filter] at hsplit
      refine List.Perm.trans (List.Perm.of_eq ?_) hsplit
      congr 1
      · refine List.filter_congr fun x _ => ?_
        by_cases h : key x = k <;> simp [h]
      · refine List.filter_congr fun x _ => ?_
        by_cases h : key x = k
        · simp [h, hnotin]
        · simp [h]

/-- Where a test depends on the class only, it selects whole classes. -/
theorem flatMap_filter_of_class {γ : Type} {f : α → List γ} {keep : α → Bool} {test : γ → Bool}
    (h : ∀ x, ∀ y ∈ f x, test y = keep x) (list : List α) :
    (list.filter keep).flatMap f = (list.flatMap f).filter test := by
  rw [List.filter_flatMap]
  induction list with
  | nil => rfl
  | cons x list ih =>
      rw [List.flatMap_cons, ← ih]
      cases hkeep : keep x with
      | true =>
          rw [List.filter_cons_of_pos hkeep, List.flatMap_cons,
            List.filter_eq_self.mpr fun y hy => (h x y hy).trans hkeep]
      | false =>
          have hnone : (f x).filter test = [] := List.filter_eq_nil_iff.mpr fun y hy => by
            rw [h x y hy, hkeep]
            exact Bool.false_ne_true
          rw [List.filter_cons_of_neg (by rw [hkeep]; exact Bool.false_ne_true), hnone,
            List.nil_append]

end KafkaJs.Data
