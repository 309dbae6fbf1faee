import Mathlib.Data.Int.CardIntervalMod
import Mathlib.Tactic.Ring

/-!
# Turns counted by a number that starts over

Players take turns by a number that starts over after a period: at a time it is the turn of the
seat `time % period % players`. Where the number of players does not divide the period, the round
is cut short each time the number starts over. `even_iff` says of which windows of consecutive
times every player has equally many turns, up to one.
-/

namespace KafkaJs.Data.Turns

/-- The seat whose turn it is. -/
def seatAt (period players time : Nat) : Nat := time % period % players

/-- The number of turns that a seat has in a window. -/
def turns (period players start length seat : Nat) : Nat :=
  Nat.count (fun offset => seatAt period players (start + offset) = seat) length

/-- The windows that deal with every seat alike. Between them the number starts over at most
twice, unless a whole number of rounds makes a period. -/
def Even (period players start length : Nat) : Prop :=
  let restarts := (start + length) / period - start / period
  -- the seat that the number would reach at the end of a period
  let cut := period % players
  let first := seatAt period players start
  let next := seatAt period players (start + length)
  cut = 0 ∨ restarts = 0 ∨
    (restarts = 1 ∧ (first = cut ∨ first < cut ∧ next ≤ first ∨
      cut < first ∧ (next = 0 ∨ first ≤ next))) ∨
    (restarts = 2 ∧ first = cut ∧ next = 0)

/-- `Even` is decidable by integer comparisons. -/
instance (period players start length : Nat) : Decidable (Even period players start length) :=
  inferInstanceAs (Decidable (_ ∨ _))

section

variable {period players : Nat}

/-- The turns of a seat before a number that did not start over. -/
theorem count_mod {seat : Nat} (hseat : seat < players) (time : Nat) :
    Nat.count (fun turn => turn % players = seat) time =
      time / players + if seat < time % players then 1 else 0 := by
  have hcount := Nat.count_modEq_card (Nat.zero_lt_of_lt hseat) seat (b := time)
  rw [Nat.mod_eq_of_lt hseat] at hcount
  rw [← hcount]
  have hiff : ∀ turn, turn % players = seat ↔ turn ≡ seat [MOD players] := by
    intro turn
    rw [Nat.ModEq, Nat.mod_eq_of_lt hseat]
  exact le_antisymm (Nat.count_mono_left fun turn _ => (hiff turn).mp)
    (Nat.count_mono_left fun turn _ => (hiff turn).mpr)

/-- Within a period the number does not start over. -/
theorem count_seatAt_of_le {seat time : Nat} (hseat : seat < players) (htime : time ≤ period) :
    Nat.count (fun turn => seatAt period players turn = seat) time =
      time / players + if seat < time % players then 1 else 0 := by
  rw [← count_mod hseat]
  have hseatAt : ∀ turn < time, seatAt period players turn = turn % players := by
    intro turn hturn
    rw [seatAt, Nat.mod_eq_of_lt (show turn < period by omega)]
  refine le_antisymm (Nat.count_mono_left fun turn hturn h => ?_)
    (Nat.count_mono_left fun turn hturn h => ?_)
  · rw [← hseatAt turn hturn, h]
  · rw [hseatAt turn hturn, h]

/-- The turns of a seat in whole periods and a part of one. -/
theorem count_seatAt_periods {seat rest : Nat} (hseat : seat < players) (hrest : rest < period)
    (periods : Nat) :
    Nat.count (fun turn => seatAt period players turn = seat) (periods * period + rest) =
      periods * (period / players) + (if seat < period % players then periods else 0) +
        (rest / players + if seat < rest % players then 1 else 0) := by
  induction periods with
  | zero => simp only [Nat.zero_mul, Nat.zero_add, ite_self, count_seatAt_of_le hseat hrest.le]
  | succ periods ih =>
      have hshift : ∀ turn, seatAt period players (period + turn) = seatAt period players turn := by
        intro turn
        rw [seatAt, seatAt, Nat.add_mod_left]
      rw [show (periods + 1) * period + rest = period + (periods * period + rest) by ring,
        Nat.count_add, count_seatAt_of_le hseat le_rfl]
      simp only [hshift, ih, Nat.add_mul, Nat.one_mul]
      split <;> omega

/-- The turns of a seat in a window, compared with those before it. -/
theorem turns_eq {seat : Nat} (hseat : seat < players) (hperiod : 0 < period)
    (start length : Nat) :
    turns period players start length seat + (start % period / players +
        if seat < seatAt period players start then 1 else 0) =
      ((start + length) / period - start / period) * (period / players) +
        (if seat < period % players then (start + length) / period - start / period else 0) +
        ((start + length) % period / players +
          if seat < seatAt period players (start + length) then 1 else 0) := by
  have hcount : ∀ time, Nat.count (fun turn => seatAt period players turn = seat) time =
      time / period * (period / players) +
        (if seat < period % players then time / period else 0) + (time % period / players +
          if seat < seatAt period players time then 1 else 0) := by
    intro time
    have h := count_seatAt_periods hseat (Nat.mod_lt time hperiod) (time / period)
    rwa [Nat.div_add_mod'] at h
  have hafter := hcount (start + length)
  rw [Nat.count_add, hcount start] at hafter
  obtain ⟨restarts, hrestarts⟩ : ∃ restarts, (start + length) / period =
      start / period + restarts :=
    Nat.exists_eq_add_of_le (Nat.div_le_div_right (Nat.le_add_right start length))
  rw [hrestarts, Nat.add_sub_cancel_left]
  rw [hrestarts, Nat.add_mul] at hafter
  rw [turns]
  by_cases hcut : seat < period % players
  · simp only [hcut, if_true] at hafter ⊢
    omega
  · simp only [hcut, if_false] at hafter ⊢
    omega

/-- Two counts with a common part differ by at most one exactly if they do so without it. -/
theorem level_iff {restarts cut first next : Nat} (hcut : cut < players) (hfirst : first < players)
    (hnext : next < players) :
    (∀ a < players, ∀ b < players,
      (if a < cut then restarts else 0) + (if a < next then 1 else 0) +
          (if b < first then 1 else 0) ≤
        (if b < cut then restarts else 0) + (if b < next then 1 else 0) +
          (if a < first then 1 else 0) + 1) ↔
      (cut = 0 ∨ restarts = 0 ∨
        (restarts = 1 ∧ (first = cut ∨ first < cut ∧ next ≤ first ∨
          cut < first ∧ (next = 0 ∨ first ≤ next))) ∨
        (restarts = 2 ∧ first = cut ∧ next = 0)) := by
  constructor
  · intro h
    -- the last seat never gains, and the others change where one of the three rounds breaks off
    have hlast := h 0 (by omega) (players - 1) (by omega)
    have hatFirst := h first hfirst (players - 1) (by omega)
    have hatCut := h 0 (by omega) cut hcut
    have hatNext := h 0 (by omega) next hnext
    grind
  · intro h a _ b _
    grind

/-- The seats have equally many turns exactly in the even windows. -/
theorem even_iff (hplayers : 0 < players) (hperiod : 0 < period) (start length : Nat) :
    (∀ first < players, ∀ second < players,
      turns period players start length first ≤ turns period players start length second + 1) ↔
      Even period players start length := by
  have hmod : ∀ time, seatAt period players time < players := fun time =>
    Nat.mod_lt _ hplayers
  rw [Even, ← level_iff (Nat.mod_lt period hplayers) (hmod start) (hmod (start + length))]
  refine forall₂_congr fun a ha => forall₂_congr fun b hb => ?_
  have hturnsA := turns_eq ha hperiod start length
  have hturnsB := turns_eq hb hperiod start length
  constructor <;> intro h <;> omega

/-- After an even or uneven window the first seat has the turns that follow. The seats then still
have equally many only if a single turn completes a round that began at the second seat. -/
theorem stuck_iff {start length extra : Nat} (hplayers : 2 ≤ players) (hperiod : 0 < period)
    (hnext : seatAt period players (start + length) = 1) (hextra : 0 < extra) :
    (∀ first < players, ∀ second < players,
      turns period players start length first + (if first = 0 then extra else 0) ≤
        turns period players start length second + (if second = 0 then extra else 0) + 1) ↔
      extra = 1 ∧ (period % players = 0 ∨ (start + length) / period = start / period) ∧
        seatAt period players start = 1 := by
  have hle : start / period ≤ (start + length) / period :=
    Nat.div_le_div_right (Nat.le_add_right start length)
  have hfirst : seatAt period players start < players := Nat.mod_lt _ (by omega)
  have hcut : period % players < players := Nat.mod_lt _ (by omega)
  constructor
  · intro h
    have hlast := h 0 (by omega) (players - 1) (by omega)
    have hsecond := h 0 (by omega) 1 (by omega)
    have hturnsFirst := turns_eq (show 0 < players by omega) hperiod start length
    have hturnsSecond := turns_eq (show 1 < players by omega) hperiod start length
    have hturnsLast := turns_eq (show players - 1 < players by omega) hperiod start length
    rw [hnext] at hturnsFirst hturnsSecond hturnsLast
    grind
  · intro ⟨hone, hrestarts, hstart⟩ first hfirst second hsecond
    have hturnsFirst := turns_eq hfirst hperiod start length
    have hturnsSecond := turns_eq hsecond hperiod start length
    rw [hnext, hstart] at hturnsFirst hturnsSecond
    grind

end

end KafkaJs.Data.Turns
