import Mathlib.Data.List.Basic

/-!
# Escaping

A code writes every character as a list of characters, and a text as the codes of its characters.
If no code can be mistaken for the beginning of another one, different texts are written
differently. Where a character stands in what is written, it stands in the code of a character of
the text.
-/

namespace KafkaJs.Data

variable {α : Type}

/-- Where two codes start alike, however they go on, they are of the same character. -/
def PrefixFree (code : α → List α) : Prop :=
  ∀ first second behind after, code first ++ behind = code second ++ after → first = second

/-- A text that is written in a prefix-free code can be read back. -/
theorem PrefixFree.injective {code : α → List α} (hcode : PrefixFree code)
    (hne : ∀ char, code char ≠ []) : Function.Injective (List.flatMap code) := by
  intro first
  induction first with
  | nil =>
      intro second h
      cases second with
      | nil => rfl
      | cons char second =>
          rw [List.flatMap_nil, List.flatMap_cons] at h
          exact absurd (List.append_eq_nil_iff.mp h.symm).1 (hne char)
  | cons char first ih =>
      intro second h
      cases second with
      | nil =>
          rw [List.flatMap_nil, List.flatMap_cons] at h
          exact absurd (List.append_eq_nil_iff.mp h).1 (hne char)
      | cons other second =>
          rw [List.flatMap_cons, List.flatMap_cons] at h
          obtain rfl := hcode char other _ _ h
          rw [ih (List.append_cancel_left h)]

/-- What follows a character in a written text is the rest of a code and other codes. -/
theorem cons_suffix_flatMap {code : α → List α} {char : α} {text after : List α}
    (h : char :: after <:+ text.flatMap code) :
    ∃ source inner outer, char :: inner <:+ code source ∧ after = inner ++ outer := by
  induction text with
  | nil => exact absurd (List.suffix_nil.mp h) (List.cons_ne_nil _ _)
  | cons source text ih =>
      rw [List.flatMap_cons] at h
      obtain ⟨before, hbefore⟩ := h
      rcases List.append_eq_append_iff.mp hbefore with ⟨middle, hcode, hafter⟩ | ⟨middle, -, hrest⟩
      · cases middle with
        | nil => exact ih ⟨[], hafter⟩
        | cons first inner =>
            obtain ⟨rfl, rfl⟩ := List.cons.inj hafter
            exact ⟨source, inner, _, ⟨before, hcode.symm⟩, rfl⟩
      · exact ih ⟨middle, hrest.symm⟩

end KafkaJs.Data
