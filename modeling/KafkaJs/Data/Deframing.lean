import Mathlib.Data.List.Basic

/-!
# Cutting a stream into frames

A `Deframer` takes one frame off the front of a buffer, if the buffer holds a whole one. Taking a
frame shortens the buffer and does not depend on what follows the frame. `drain` takes off as many
frames as there are. `drain_append` says that a stream may be drained piece by piece, with what is
left over put in front of the next piece.
-/

namespace KafkaJs.Data

/-- A way to take one frame off a buffer. -/
structure Deframer (β α : Type) where
  next : List β → Option (α × List β)
  /-- A frame has symbols. -/
  shrinks : ∀ {buffer frame rest}, next buffer = some (frame, rest) → rest.length < buffer.length
  /-- What follows a whole frame does not change it. -/
  stable : ∀ {buffer frame rest} (more), next buffer = some (frame, rest) →
    next (buffer ++ more) = some (frame, rest ++ more)

namespace Deframer

variable {β α : Type} (deframer : Deframer β α)

/-- The frames at the front of a buffer, and what is left over. -/
def drain (buffer : List β) : List α × List β :=
  match h : deframer.next buffer with
  | none => ([], buffer)
  | some (frame, rest) =>
      have := deframer.shrinks h
      (frame :: (drain rest).1, (drain rest).2)
termination_by buffer.length

variable {deframer} {buffer rest : List β} {frame : α}

/-- Without a whole frame nothing is taken. -/
theorem drain_of_none (h : deframer.next buffer = none) : deframer.drain buffer = ([], buffer) := by
  rw [drain]
  split
  · rfl
  · next hsome => cases h.symm.trans hsome

/-- A whole frame is taken, and then those behind it. -/
theorem drain_of_some (h : deframer.next buffer = some (frame, rest)) :
    deframer.drain buffer = (frame :: (deframer.drain rest).1, (deframer.drain rest).2) := by
  rw [drain]
  split
  · next hnone => cases h.symm.trans hnone
  · next hsome =>
      cases h.symm.trans hsome
      rfl

/-- No frame is left over. -/
theorem next_drain (buffer : List β) : deframer.next (deframer.drain buffer).2 = none := by
  induction buffer using drain.induct deframer with
  | case1 buffer hnone => rwa [drain_of_none hnone]
  | case2 buffer frame rest hsome _ ih => rwa [drain_of_some hsome]

/-- Draining what is left over together with more symbols continues where draining stopped. -/
theorem drain_append (buffer more : List β) :
    deframer.drain (buffer ++ more) =
      ((deframer.drain buffer).1 ++ (deframer.drain ((deframer.drain buffer).2 ++ more)).1,
        (deframer.drain ((deframer.drain buffer).2 ++ more)).2) := by
  induction buffer using drain.induct deframer with
  | case1 buffer hnone => simp [drain_of_none hnone]
  | case2 buffer frame rest hsome _ ih =>
      rw [drain_of_some (deframer.stable more hsome), drain_of_some hsome, ih]
      rfl

end Deframer

end KafkaJs.Data
