import KafkaJs.Data.Turns
import KafkaJs.Producer.Partitioner

/-!
# How evenly the round robin spreads messages

One partitioner serves the calls for all topics, with and without keys. The messages of a topic
without partition and key take their turns by the counter of the topic, which no other call
moves. The counter is cut to 31 bits and stays at `2 ^ 53`, and a topic that bears the name of an
inherited property has none: `SpreadsEvenly` says of which calls the partitions are returned
equally often.
-/

namespace KafkaJs.Producer

open Data Cluster

variable {κ : Type}

/-- One call of the partitioner. -/
structure Call (κ : Type) where
  topic : String
  partitionMetadata : List PartitionMetadata
  message : Message κ
  deriving DecidableEq, Repr

/-- The calls for a topic with neither a partition nor a key. -/
def Call.IsKeyless (call : Call κ) (topic : String) : Prop :=
  call.topic = topic ∧ call.message.partition = none ∧ call.message.key = none

/-- `IsKeyless` is decidable by comparing the topic and the key. -/
instance (call : Call κ) (topic : String) : Decidable (call.IsKeyless topic) :=
  inferInstanceAs (Decidable (call.topic = topic ∧ call.message.partition = none ∧
    call.message.key = none))

section Calls

variable (murmur2 : κ → Int) (seed : String → UInt32)

/-- What the partitioner returns to a call, and its counters after it. The seeds are numbers of 32
bits, read from random bytes. -/
def Call.answer (call : Call κ) (counters : Counters) : Int × Counters :=
  legacyPartitioner murmur2 (fun topic => (seed topic).toNat) counters call.topic
    call.partitionMetadata call.message

/-- What one partitioner returns to calls in turn, and its counters after them. -/
def callAll : Counters → List (Call κ) → List (Call κ × Int) × Counters
  | counters, [] => ([], counters)
  | counters, call :: calls =>
      let (partition, next) := call.answer murmur2 seed counters
      let (rest, final) := callAll next calls
      ((call, partition) :: rest, final)

/-- The partitions returned for the messages of a topic without partition and key. -/
def keylessPartitions (topic : String) (returned : List (Call κ × Int)) : List Int :=
  (returned.filter fun entry => entry.1.IsKeyless topic).map Prod.snd

/-- The counter of a topic before the next call. -/
def counterBefore (counters : Counters) (topic : String) : Option Int :=
  counterOf (fun topic => (seed topic).toNat) counters topic

/-- The number of calls for a topic with neither a partition nor a key. -/
def keylessCalls (topic : String) (calls : List (Call κ)) : Nat :=
  calls.countP fun call => call.IsKeyless topic

end Calls

/-- Only available partitions are returned, and any two of them equally often up to one. -/
def EvenlySpread (partitionMetadata : List PartitionMetadata) (returned : List Int) : Prop :=
  (∀ partition ∈ returned, ∃ entry ∈ availablePartitions partitionMetadata,
    entry.partitionId = partition) ∧
  ∀ first ∈ availablePartitions partitionMetadata,
    ∀ second ∈ availablePartitions partitionMetadata,
      returned.count first.partitionId ≤ returned.count second.partitionId + 1

/-- `EvenlySpread` is decidable by counting. -/
instance (partitionMetadata : List PartitionMetadata) (returned : List Int) :
    Decidable (EvenlySpread partitionMetadata returned) :=
  inferInstanceAs (Decidable (_ ∧ _))

/-- The calls whose partitions are spread evenly. `count` is the number at which the counter of
the topic stands before them. -/
def SpreadsEvenly (topic : String) (available count calls : Nat) : Prop :=
  available = 1 ∨ calls ≤ 1 ∨
    (topic ∉ inheritedNames ∧
      (count + calls ≤ 2 ^ 53 ∧ Turns.Even (2 ^ 31) available (count + 1) calls ∨
        -- one turn at the number where the counter stays
        count + calls = 2 ^ 53 + 1 ∧ available ∣ 2 ^ 31 ∧ available ∣ count))

/-- `SpreadsEvenly` is decidable by integer comparisons. -/
instance (topic : String) (available count calls : Nat) :
    Decidable (SpreadsEvenly topic available count calls) :=
  inferInstanceAs (Decidable (_ ∨ _))

/-! ## Turns -/

/-- The seat among the available partitions whose turn it is at a value of the counter. -/
def seatOf (available : Nat) (count : Option Int) : Nat := (toPositive count % available).toNat

/-- The seat is one of those available. -/
theorem seatOf_lt {available : Nat} (havailable : 0 < available) (count : Option Int) :
    seatOf available count < available := by
  have hnonneg := Int.emod_nonneg (toPositive count) (b := available) (by omega)
  have hlt := Int.emod_lt_of_pos (toPositive count) (b := available) (by omega)
  show (toPositive count % available).toNat < available
  omega

/-- Without a counter the seat is the first. -/
@[simp] theorem seatOf_none (available : Nat) : seatOf available none = 0 := by
  simp [seatOf, toPositive]

/-- The seat of a counter is that of its turn. -/
theorem seatOf_nat (available count : Nat) :
    seatOf available (some (count : Int)) = Turns.seatAt (2 ^ 31) available count := by
  show ((count : Int) % ((2 ^ 31 : Nat) : Int) % (available : Int)).toNat = _
  rw [← Int.natCast_mod, ← Int.natCast_mod, Int.toNat_natCast]
  rfl

section Turns

variable {partitionMetadata : List PartitionMetadata}

/-- The partition of a counter is the one at its seat. -/
theorem partitionAt_eq (havailable : 0 < (availablePartitions partitionMetadata).length)
    (count : Option Int) :
    partitionAt partitionMetadata count =
      ((availablePartitions partitionMetadata).get
        ⟨seatOf _ count, seatOf_lt havailable count⟩).partitionId := by
  have hseat := List.getElem?_eq_getElem (seatOf_lt havailable count)
  simp only [seatOf] at hseat
  simp only [partitionAt, hseat]
  rfl

/-- The partitions returned at a sequence of turns are spread evenly exactly if the seats have
equally many of the turns. -/
theorem evenlySpread_iff (havailable : availablePartitions partitionMetadata ≠ [])
    (hdistinct : ((availablePartitions partitionMetadata).map
      PartitionMetadata.partitionId).Nodup) (counts : Nat → Option Int) (calls : Nat) :
    EvenlySpread partitionMetadata
        ((List.range calls).map fun call => partitionAt partitionMetadata (counts call)) ↔
      ∀ first < (availablePartitions partitionMetadata).length,
        ∀ second < (availablePartitions partitionMetadata).length,
          Nat.count (fun call =>
              seatOf (availablePartitions partitionMetadata).length (counts call) = first) calls ≤
            Nat.count (fun call => seatOf (availablePartitions partitionMetadata).length
              (counts call) = second) calls + 1 := by
  have hlength : 0 < (availablePartitions partitionMetadata).length :=
    List.length_pos_iff.mpr havailable
  -- partitions have distinct ids, so the calls of a partition are those of its seat
  have hcount : ∀ seat (hseat : seat < (availablePartitions partitionMetadata).length),
      ((List.range calls).map fun call => partitionAt partitionMetadata (counts call)).count
          ((availablePartitions partitionMetadata).get ⟨seat, hseat⟩).partitionId =
        Nat.count (fun call =>
          seatOf (availablePartitions partitionMetadata).length (counts call) = seat) calls := by
    intro seat hseat
    rw [List.count_eq_countP, List.countP_map, Nat.count]
    refine List.countP_congr fun call _ => ?_
    have hinj := @List.Nodup.getElem_inj_iff _ _ hdistinct _
      (by simpa using seatOf_lt hlength (counts call)) _ (by simpa using hseat)
    simp only [List.getElem_map] at hinj
    simp only [Function.comp_apply, partitionAt_eq hlength, beq_iff_eq, decide_eq_true_eq]
    exact hinj
  constructor
  · intro ⟨_, heven⟩ first hfirst second hsecond
    rw [← hcount first hfirst, ← hcount second hsecond]
    exact heven _ (List.get_mem _ _) _ (List.get_mem _ _)
  · intro heven
    refine ⟨?_, ?_⟩
    · intro partition hmem
      obtain ⟨call, -, rfl⟩ := List.mem_map.mp hmem
      exact ⟨_, List.get_mem _ _, (partitionAt_eq hlength (counts call)).symm⟩
    · intro first hfirst second hsecond
      obtain ⟨i, rfl⟩ := List.get_of_mem hfirst
      obtain ⟨j, rfl⟩ := List.get_of_mem hsecond
      rw [hcount i i.isLt, hcount j j.isLt]
      exact heven i i.isLt j j.isLt

end Turns

/-! ## The counter of a topic over many calls -/

/-- The counter a number of turns after it stood at `start`; a topic with the name of an inherited
property has none. -/
def standing (start : Option Nat) (turns : Nat) : Option Int :=
  start.map fun count => ((min (count + turns) (2 ^ 53) : Nat) : Int)

/-- A counter that has made its first turn. -/
theorem map_advance_standing (start : Option Nat) :
    (standing start 0).map advance = standing start 1 := by
  cases start with
  | none => rfl
  | some count =>
      simp only [standing, advance, Option.map_some, Option.some.injEq]
      split <;> omega

/-- One turn more. -/
theorem standing_succ (start : Option Nat) (turns : Nat) :
    standing (start.map (· + 1)) turns = standing start (turns + 1) := by
  cases start with
  | none => rfl
  | some count =>
      simp only [standing, Option.map_some]
      rw [Nat.add_assoc, Nat.add_comm 1]

/-- A counter that is not yet in the object is put there at its seed. -/
theorem counterOf_start (seed : String → Int) (counters : Counters) (started topic : String) :
    counterOf seed (if counters.has started = true ∨ started ∈ inheritedNames then counters
      else counters.set started (seed started)) topic = counterOf seed counters topic := by
  split
  · rfl
  next habsent =>
    simp only [not_or, Bool.not_eq_true] at habsent
    by_cases hsame : topic = started
    · subst hsame
      have hnone : counters.get? topic = none := by simpa [InsertionMap.has] using habsent.1
      simp [counterOf, hnone, habsent.2]
    · simp [counterOf, InsertionMap.get?_set_of_ne _ _ hsame]

section Runs

variable {murmur2 : κ → Int} {seed : String → UInt32} {topic : String}

/-- Only a message of the topic without partition and key moves the counter of the topic. -/
theorem counterBefore_other (counters : Counters) {call : Call κ}
    (hother : ¬ call.IsKeyless topic) :
    counterBefore seed (call.answer murmur2 seed counters).2 topic =
      counterBefore seed counters topic := by
  rw [counterBefore, counterBefore, ← counterOf_start _ counters call.topic topic]
  unfold Call.answer legacyPartitioner
  cases hpartition : call.message.partition with
  | some partition => rfl
  | none =>
      cases hkey : call.message.key with
      | some key => rfl
      | none =>
          have hne : topic ≠ call.topic := fun h => hother ⟨h.symm, hpartition, hkey⟩
          simp only [increment]
          split
          · simp [counterOf, InsertionMap.get?_set_of_ne _ _ hne]
          · rfl

/-- A message of the topic without partition and key takes the next turn. -/
theorem answer_keyless {counters : Counters} {start : Option Nat} {call : Call κ}
    (hkeyless : call.IsKeyless topic) (hcounter : counterBefore seed counters topic =
      standing start 0) :
    (call.answer murmur2 seed counters).1 =
        partitionAt call.partitionMetadata (standing start 1) ∧
      counterBefore seed (call.answer murmur2 seed counters).2 topic =
        standing (start.map (· + 1)) 0 := by
  obtain ⟨rfl, hpartition, hkey⟩ := hkeyless
  have hstep := legacyPartitioner_keyless murmur2 (fun topic => ((seed topic).toNat : Int))
    counters call.topic call.partitionMetadata hpartition hkey
  rw [counterBefore] at hcounter
  simp only [hcounter, map_advance_standing] at hstep
  rw [standing_succ]
  exact hstep

/-- The calls without a key, call by call. -/
theorem keylessCalls_cons (call : Call κ) (calls : List (Call κ)) :
    keylessCalls topic (call :: calls) =
      keylessCalls topic calls + if call.IsKeyless topic then 1 else 0 := by
  simp [keylessCalls, List.countP_cons]

/-- The counter after any calls: one turn for each that has neither partition nor key. -/
theorem counterBefore_callAll (calls : List (Call κ)) (counters : Counters) (start : Option Nat)
    (hcounter : counterBefore seed counters topic = standing start 0) :
    counterBefore seed (callAll murmur2 seed counters calls).2 topic =
      standing start (keylessCalls topic calls) := by
  induction calls generalizing counters start with
  | nil => exact hcounter
  | cons call calls ih =>
      show counterBefore seed
        (callAll murmur2 seed (call.answer murmur2 seed counters).2 calls).2 topic = _
      rw [keylessCalls_cons]
      by_cases hkeyless : call.IsKeyless topic
      · rw [ih _ _ (answer_keyless hkeyless hcounter).2, standing_succ, if_pos hkeyless]
      · rw [ih _ _ ((counterBefore_other counters hkeyless).trans hcounter), if_neg hkeyless]
        rfl

/-- The partitions returned for a topic are those of the turns of its counter, whatever other
calls come in between. -/
theorem keylessPartitions_callAll {partitionMetadata : List PartitionMetadata}
    (calls : List (Call κ)) (counters : Counters) (start : Option Nat)
    (hcounter : counterBefore seed counters topic = standing start 0)
    (hfixed : ∀ call ∈ calls, call.IsKeyless topic →
      call.partitionMetadata = partitionMetadata) :
    keylessPartitions topic (callAll murmur2 seed counters calls).1 =
      (List.range (keylessCalls topic calls)).map fun turn =>
        partitionAt partitionMetadata (standing start (turn + 1)) := by
  induction calls generalizing counters start with
  | nil => rfl
  | cons call calls ih =>
      have hrest : ∀ other ∈ calls, other.IsKeyless topic →
          other.partitionMetadata = partitionMetadata := fun other hmem =>
        hfixed other (List.mem_cons_of_mem _ hmem)
      show keylessPartitions topic ((call, (call.answer murmur2 seed counters).1) ::
        (callAll murmur2 seed (call.answer murmur2 seed counters).2 calls).1) = _
      rw [keylessCalls_cons]
      by_cases hkeyless : call.IsKeyless topic
      · obtain ⟨hpartition, hstep⟩ := @answer_keyless _ murmur2 _ _ _ _ _ hkeyless hcounter
        have hnext := ih _ _ hstep hrest
        rw [keylessPartitions] at hnext ⊢
        rw [if_pos hkeyless, List.filter_cons_of_pos (by simpa using hkeyless), List.map_cons,
          hnext, hpartition, hfixed call List.mem_cons_self hkeyless, List.range_succ_eq_map,
          List.map_cons, List.map_map]
        refine congrArg _ (List.map_congr_left fun turn _ => ?_)
        rw [standing_succ]
        rfl
      · have hstep := (@counterBefore_other _ murmur2 _ _ counters _ hkeyless).trans hcounter
        rw [if_neg hkeyless, Nat.add_zero, ← ih _ _ hstep hrest, keylessPartitions,
          List.filter_cons_of_neg (by simpa using hkeyless)]
        rfl

end Runs

/-! ## Even turns -/

/-- Turns that were made earlier. -/
theorem standing_add (start : Option Nat) (earlier turns : Nat) :
    standing (start.map (· + earlier)) turns = standing start (earlier + turns) := by
  cases start with
  | none => rfl
  | some count =>
      simp only [standing, Option.map_some]
      rw [Nat.add_assoc]

/-- A first seat that has two turns and a second that has none are not even. -/
theorem not_even_of_first {available calls : Nat} {counts : Nat → Option Int}
    (havailable : 2 ≤ available) (hcalls : 2 ≤ calls)
    (hfirst : ∀ call < calls, seatOf available (counts call) = 0) :
    ¬ ∀ first < available, ∀ second < available,
      Nat.count (fun call => seatOf available (counts call) = first) calls ≤
        Nat.count (fun call => seatOf available (counts call) = second) calls + 1 := by
  intro heven
  have hall : Nat.count (fun call => seatOf available (counts call) = 0) calls = calls :=
    Nat.count_iff_forall.mpr hfirst
  have hnone : Nat.count (fun call => seatOf available (counts call) = 1) calls = 0 :=
    Nat.count_iff_forall_not.mpr fun call hcall => by
      rw [hfirst call hcall]
      decide
  have hle := heven 0 (by omega) 1 (by omega)
  omega

/-- Up to `2 ^ 53` the counter takes the turns of a number that starts over after `2 ^ 31`. -/
theorem count_standing {available count calls : Nat} (hcalls : count + calls ≤ 2 ^ 53)
    (seat : Nat) :
    Nat.count (fun turn => seatOf available (standing (some count) (turn + 1)) = seat) calls =
      Turns.turns (2 ^ 31) available (count + 1) calls seat := by
  have hseat : ∀ turn < calls, seatOf available (standing (some count) (turn + 1)) =
      Turns.seatAt (2 ^ 31) available (count + 1 + turn) := by
    intro turn hturn
    rw [standing, Option.map_some, seatOf_nat, Nat.min_eq_left (by omega), Nat.add_right_comm,
      Nat.add_assoc]
  refine le_antisymm (Nat.count_mono_left fun turn hturn h => ?_)
    (Nat.count_mono_left fun turn hturn h => ?_)
  · rw [← hseat turn hturn, h]
  · rw [hseat turn hturn, h]

/-- From `2 ^ 53` on it is always the turn of the first seat. -/
theorem seatOf_standing_stuck {available count turns : Nat} (hstuck : 2 ^ 53 ≤ count + turns) :
    seatOf available (standing (some count) turns) = 0 := by
  rw [standing, Option.map_some, seatOf_nat, Nat.min_eq_right hstuck]
  show 2 ^ 53 % 2 ^ 31 % available = 0
  simp

/-- The turns of a counter that reaches `2 ^ 53`. -/
theorem count_standing_stuck {available count extra : Nat} (hcount : count ≤ 2 ^ 53)
    (seat : Nat) :
    Nat.count (fun turn => seatOf available (standing (some count) (turn + 1)) = seat)
        (2 ^ 53 - count + extra) =
      Turns.turns (2 ^ 31) available (count + 1) (2 ^ 53 - count) seat +
        if seat = 0 then extra else 0 := by
  have hstuck : ∀ turn, seatOf available
      (standing (some count) (2 ^ 53 - count + turn + 1)) = 0 := fun turn =>
    seatOf_standing_stuck (by omega)
  rw [Nat.count_add, count_standing (by omega)]
  simp only [hstuck]
  by_cases hseat : seat = 0
  · simp [hseat]
  · simp [hseat, eq_comm (a := 0)]

/-- The next count is one modulo the seats if they divide the count. -/
theorem succ_mod_eq_one_iff {available count : Nat} (havailable : 2 ≤ available) :
    (count + 1) % available = 1 ↔ available ∣ count := by
  rw [Nat.dvd_iff_mod_eq_zero, Nat.add_mod, Nat.mod_eq_of_lt (show 1 < available by omega)]
  have hlt := Nat.mod_lt count (show 0 < available by omega)
  obtain hlast | hinside := Nat.lt_or_ge (count % available + 1) available
  · rw [Nat.mod_eq_of_lt hlast]
    omega
  · rw [show count % available + 1 = available by omega, Nat.mod_self]
    omega

/-- The seats have equally many turns of a counter exactly if it spreads them evenly. -/
theorem standing_even_iff {available : Nat} (havailable : 0 < available) (start : Option Nat)
    (calls : Nat) :
    (∀ first < available, ∀ second < available,
      Nat.count (fun turn => seatOf available (standing start (turn + 1)) = first) calls ≤
        Nat.count (fun turn => seatOf available (standing start (turn + 1)) = second) calls + 1) ↔
      (available = 1 ∨ calls ≤ 1 ∨ ∃ count, start = some count ∧
        (count + calls ≤ 2 ^ 53 ∧ Turns.Even (2 ^ 31) available (count + 1) calls ∨
          count + calls = 2 ^ 53 + 1 ∧ available ∣ 2 ^ 31 ∧ available ∣ count)) := by
  by_cases hfew : available = 1 ∨ calls ≤ 1
  · refine iff_of_true (fun first hfirst second hsecond => ?_) (by tauto)
    obtain rfl | hcalls := hfew
    · rw [show first = second by omega]
      exact Nat.le_succ _
    · exact (le_trans (Nat.count_le _) hcalls).trans (Nat.le_add_left _ _)
  obtain ⟨hseveral, hcalls⟩ := not_or.mp hfew
  simp only [hseveral, hcalls, false_or]
  cases start with
  | none =>
      refine iff_of_false (not_even_of_first (by omega) (by omega) fun call _ => ?_) (by simp)
      exact seatOf_none _
  | some count =>
      simp only [Option.some.injEq, exists_eq_left']
      by_cases hbelow : count + calls ≤ 2 ^ 53
      · simp only [count_standing hbelow]
        rw [Turns.even_iff havailable (by decide)]
        have hnot : count + calls ≠ 2 ^ 53 + 1 := by omega
        simp only [hbelow, hnot, true_and, false_and, or_false]
      by_cases hstuck : 2 ^ 53 ≤ count
      · refine iff_of_false (not_even_of_first (by omega) (by omega) fun call _ => ?_) ?_
        · exact seatOf_standing_stuck (by omega)
        · omega
      obtain ⟨extra, rfl⟩ : ∃ extra, calls = 2 ^ 53 - count + extra :=
        ⟨count + calls - 2 ^ 53, by omega⟩
      have hreach : count + 1 + (2 ^ 53 - count) = 2 ^ 53 + 1 := by omega
      have hnext : Turns.seatAt (2 ^ 31) available (count + 1 + (2 ^ 53 - count)) = 1 := by
        rw [hreach]
        show 1 % available = 1
        exact Nat.mod_eq_of_lt (by omega)
      simp only [count_standing_stuck (Nat.le_of_not_le hstuck)]
      rw [Turns.stuck_iff (by omega) (by decide) hnext (by omega), hreach]
      constructor
      · intro ⟨hone, hwhole, hfirst⟩
        obtain hzero | hlate := hwhole
        · have hdvd : available ∣ 2 ^ 31 := Nat.dvd_of_mod_eq_zero hzero
          rw [Turns.seatAt, Nat.mod_mod_of_dvd _ hdvd, succ_mod_eq_one_iff (by omega)] at hfirst
          exact .inr ⟨by omega, hdvd, hfirst⟩
        · -- the window begins at `2 ^ 53`, the turn of the first seat and not of the second
          have hcount : count + 1 = 2 ^ 53 := by omega
          rw [hcount] at hfirst
          have hzero : Turns.seatAt (2 ^ 31) available (2 ^ 53) = 0 := by
            show 2 ^ 53 % 2 ^ 31 % available = 0
            simp
          omega
      · rintro (⟨hle, -⟩ | ⟨hone, hdvd, hcount⟩)
        · omega
        · refine ⟨by omega, .inl (Nat.mod_eq_zero_of_dvd hdvd), ?_⟩
          rw [Turns.seatAt, Nat.mod_mod_of_dvd _ hdvd, succ_mod_eq_one_iff (by omega)]
          exact hcount

/-! ## Even spreading -/

/-- A new partitioner has no counters. -/
theorem counterBefore_empty (seed : String → UInt32) (topic : String) :
    counterBefore seed InsertionMap.empty topic =
      standing (if topic ∈ inheritedNames then none else some (seed topic).toNat) 0 := by
  have hseed := (seed topic).toNat_lt
  simp only [counterBefore, counterOf, InsertionMap.get?_empty]
  split
  · rfl
  · simp only [standing, Option.map_some]
    rw [Nat.min_eq_left (by omega), Nat.add_zero]

/-- Among consecutive calls of one partitioner, the messages of a topic without partition and key
are spread evenly over its available partitions exactly if its counter spreads them evenly: it has
moved from its seed by one for each such message before. -/
theorem evenlySpread_iff_spreadsEvenly (murmur2 : κ → Int) (seed : String → UInt32)
    (earlier calls : List (Call κ)) (topic : String) {partitionMetadata : List PartitionMetadata}
    (hfixed : ∀ call ∈ calls, call.IsKeyless topic → call.partitionMetadata = partitionMetadata)
    (havailable : availablePartitions partitionMetadata ≠ [])
    (hdistinct : ((availablePartitions partitionMetadata).map
      PartitionMetadata.partitionId).Nodup) :
    EvenlySpread partitionMetadata (keylessPartitions topic
        (callAll murmur2 seed (callAll murmur2 seed InsertionMap.empty earlier).2 calls).1) ↔
      SpreadsEvenly topic (availablePartitions partitionMetadata).length
        ((seed topic).toNat + keylessCalls topic earlier) (keylessCalls topic calls) := by
  have hcounter := @counterBefore_callAll _ murmur2 _ _ earlier _ _
    (counterBefore_empty seed topic)
  rw [← Nat.add_zero (keylessCalls topic earlier), ← standing_add] at hcounter
  rw [keylessPartitions_callAll calls _ _ hcounter hfixed, evenlySpread_iff havailable hdistinct,
    standing_even_iff (List.length_pos_iff.mpr havailable), SpreadsEvenly]
  by_cases hinherited : topic ∈ inheritedNames
  · simp [hinherited]
  · simp [hinherited]

/-- Three messages to a topic with two partitions, in between a message of another topic and one
with a key. -/
theorem evenlySpread_twoPartitions :
    EvenlySpread [⟨0, some 1⟩, ⟨1, some 2⟩] (keylessPartitions "events"
      (callAll (fun key : Nat => key) (fun _ => 7)
        (callAll (fun key : Nat => key) (fun _ => 7) InsertionMap.empty []).2
        [⟨"events", [⟨0, some 1⟩, ⟨1, some 2⟩], ⟨1, none, none⟩⟩,
          ⟨"other", [⟨0, some 1⟩], ⟨2, none, none⟩⟩,
          ⟨"events", [⟨0, some 1⟩, ⟨1, some 2⟩], ⟨3, some 5, none⟩⟩,
          ⟨"events", [⟨0, some 1⟩, ⟨1, some 2⟩], ⟨4, none, none⟩⟩,
          ⟨"events", [⟨0, some 1⟩, ⟨1, some 2⟩], ⟨5, none, none⟩⟩]).1) :=
  (evenlySpread_iff_spreadsEvenly (fun key : Nat => key) (fun _ => 7) [] _ "events"
    (by decide) (by decide) (by decide)).mpr (by decide)

/-- Both messages to a topic named `constructor` go to the first of two partitions. Of four
messages to three partitions two go to the first, two to the second and none to the third when the
counter starts over after the second message. -/
theorem unevenlySpread :
    ¬ EvenlySpread [⟨0, some 1⟩, ⟨1, some 2⟩] (keylessPartitions "constructor"
      (callAll (fun key : Nat => key) (fun _ => 7) InsertionMap.empty
        (List.replicate 2 ⟨"constructor", [⟨0, some 1⟩, ⟨1, some 2⟩], ⟨1, none, none⟩⟩)).1) ∧
    ¬ EvenlySpread [⟨0, some 1⟩, ⟨1, some 2⟩, ⟨2, some 3⟩] (keylessPartitions "events"
      (callAll (fun key : Nat => key) (fun _ => 0x7ffffffd) InsertionMap.empty
        (List.replicate 4 ⟨"events", [⟨0, some 1⟩, ⟨1, some 2⟩, ⟨2, some 3⟩],
          ⟨1, none, none⟩⟩)).1) := by
  decide

end KafkaJs.Producer
