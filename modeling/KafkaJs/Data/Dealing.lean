import Mathlib.Data.Int.CardIntervalMod
import Mathlib.Data.List.Nodup

/-!
# Dealing round robin

Items are dealt to players in turn: `deal` lists who gets what. Every item is dealt once,
`map_snd_deal`, and two of finitely many players who take turns get equally many items up to one,
`length_dealt_le`.
-/

namespace KafkaJs.Data

variable {κ α : Type}

/-- Deal the items; `playerAt` is the player at the turn of an item. -/
def deal (playerAt : Nat → κ) (items : List α) : List (κ × α) :=
  items.zipIdx.map fun entry => (playerAt entry.2, entry.1)

/-- The last item goes to the player at its position. -/
theorem deal_concat (playerAt : Nat → κ) (items : List α) (item : α) :
    deal playerAt (items ++ [item]) =
      deal playerAt items ++ [(playerAt items.length, item)] := by
  simp [deal, List.zipIdx_append]

/-- Dealing keeps the items and their order. -/
theorem map_snd_deal (playerAt : Nat → κ) (items : List α) :
    (deal playerAt items).map Prod.snd = items := by
  induction items using List.reverseRecOn with
  | nil => rfl
  | append_singleton items item ih => rw [deal_concat, List.map_append, ih, List.map_singleton]

/-- Who is dealt something has a turn. -/
theorem mem_deal {playerAt : Nat → κ} {items : List α} {entry : κ × α}
    (h : entry ∈ deal playerAt items) :
    ∃ turn, turn < items.length ∧ entry.1 = playerAt turn ∧ items[turn]? = some entry.2 := by
  obtain ⟨⟨item, turn⟩, hmem, rfl⟩ := List.mem_map.mp h
  have hitem := List.mem_zipIdx_iff_getElem?.mp hmem
  exact ⟨turn, (List.getElem?_eq_some_iff.mp hitem).1, rfl, hitem⟩

/-- At every turn something is dealt. -/
theorem deal_of_getElem? {playerAt : Nat → κ} {items : List α} {turn : Nat} {item : α}
    (h : items[turn]? = some item) : (playerAt turn, item) ∈ deal playerAt items :=
  List.mem_map.mpr ⟨(item, turn), List.mem_zipIdx_iff_getElem?.mpr h, rfl⟩

variable [DecidableEq κ]

/-- The number of items that a player is dealt is the number of the player's turns. -/
theorem length_dealt (playerAt : Nat → κ) (items : List α) (player : κ) :
    ((deal playerAt items).filter fun entry => entry.1 = player).length =
      Nat.count (fun turn => playerAt turn = player) items.length := by
  induction items using List.reverseRecOn with
  | nil => rfl
  | append_singleton items item ih =>
      rw [deal_concat, List.filter_append, List.length_append, ih, List.length_append,
        List.length_singleton, Nat.count_succ]
      by_cases h : playerAt items.length = player <;> simp [h]

/-- The turns of one of distinct players. -/
theorem count_turns {players : List κ} (hnodup : players.Nodup) {seat : Nat}
    (hseat : seat < players.length) {playerAt : Nat → κ}
    (hturns : ∀ turn, some (playerAt turn) = players[turn % players.length]?) (turns : Nat) :
    Nat.count (fun turn => playerAt turn = players[seat]) turns =
      turns / players.length + if seat < turns % players.length then 1 else 0 := by
  have hpos : 0 < players.length := Nat.zero_lt_of_lt hseat
  have hturn : ∀ turn, playerAt turn = players[seat] ↔ turn ≡ seat [MOD players.length] := by
    intro turn
    have hmod := Nat.mod_lt turn hpos
    have hplayer := hturns turn
    rw [List.getElem?_eq_getElem hmod] at hplayer
    rw [Option.some.inj hplayer, hnodup.getElem_inj_iff, Nat.ModEq, Nat.mod_eq_of_lt hseat]
  have hcount := Nat.count_modEq_card hpos seat (b := turns)
  rw [Nat.mod_eq_of_lt hseat] at hcount
  rw [← hcount]
  exact le_antisymm (Nat.count_mono_left fun turn _ => (hturn turn).mp)
    (Nat.count_mono_left fun turn _ => (hturn turn).mpr)

/-- Two players who take turns are dealt equally many items, up to one. -/
theorem length_dealt_le {players : List κ} (hnodup : players.Nodup) {playerAt : Nat → κ}
    (hturns : ∀ turn, some (playerAt turn) = players[turn % players.length]?) (items : List α)
    {first second : κ} (hfirst : first ∈ players) (hsecond : second ∈ players) :
    ((deal playerAt items).filter fun entry => entry.1 = first).length ≤
      ((deal playerAt items).filter fun entry => entry.1 = second).length + 1 := by
  obtain ⟨seat, hseat, rfl⟩ := List.getElem_of_mem hfirst
  obtain ⟨other, hother, rfl⟩ := List.getElem_of_mem hsecond
  rw [length_dealt, length_dealt, count_turns hnodup hseat hturns,
    count_turns hnodup hother hturns]
  split <;> split <;> omega

end KafkaJs.Data
