import KafkaJs.Data.Pointwise
import Mathlib.Algebra.Group.Int.Defs

/-!
# Sequence numbers of an idempotent producer

`getSequence` and `updateSequence` of the eos manager: one counter for each topic-partition,
starting from zero, that does nothing until the producer id is known and rotates to zero when it
would reach the largest 32-bit number. Topics are of any type here: names that no object inherits.
`SequenceRuns` has the object in which the counters stand, and with it all names.
-/

namespace KafkaJs.Producer

open Data

/-- `INT_32_MAX_VALUE`. -/
def int32MaxValue : Int := 2 ^ 31 - 1

variable {τ : Type}

/-- `getSequence`. A topic-partition that was never updated has sequence zero. -/
def getSequence (initialized : Bool) (producerSequence : τ → Int) (topicPartition : τ) : Int :=
  if initialized then producerSequence topicPartition else 0

/-- The sequence after an update from `previous`: rotated to zero at the maximum. -/
def rotate (previous increment : Int) : Int :=
  if int32MaxValue ≤ previous + increment then 0 else previous + increment

/-- `updateSequence`. -/
def updateSequence [DecidableEq τ] (initialized : Bool) (producerSequence : τ → Int)
    (topicPartition : τ) (increment : Int) : τ → Int :=
  if initialized then
    Function.update producerSequence topicPartition
      (rotate (getSequence initialized producerSequence topicPartition) increment)
  else producerSequence

/-- Below the maximum an update adds the increment. -/
theorem rotate_of_lt {previous increment : Int} (h : previous + increment < int32MaxValue) :
    rotate previous increment = previous + increment := by
  rw [rotate, if_neg (by omega)]

end KafkaJs.Producer
