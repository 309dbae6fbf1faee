import KafkaJs.Data.InsertionMap
import KafkaJs.Data.Pointwise

/-!
# Values under two keys

Values that are grouped under a first key and, within a group, listed under a second one. `ListsAt`
says which values stand under which keys, whatever the groups are; `ungrouped` lists them without
groups, and `indexed` is the record of records that is built from them.
-/

namespace KafkaJs.Data

variable {ι κ ν : Type}

/-- A value stands under the two keys. -/
def ListsAt (groups : List (ι × List (κ × ν))) (outer : ι) (inner : κ) (value : ν) : Prop :=
  ∃ group, (outer, group) ∈ groups ∧ (inner, value) ∈ group

/-- The values with both of their keys. -/
def ungrouped (groups : List (ι × List (κ × ν))) : List ((ι × κ) × ν) :=
  groups.flatMap fun entry => entry.2.map fun pair => ((entry.1, pair.1), pair.2)

/-- What is listed flat is listed in a group. -/
theorem mem_ungrouped {groups : List (ι × List (κ × ν))} {outer : ι} {inner : κ} {value : ν} :
    ((outer, inner), value) ∈ ungrouped groups ↔ ListsAt groups outer inner value := by
  simp only [ungrouped, ListsAt, List.mem_flatMap, List.mem_map]
  constructor
  · intro h
    obtain ⟨entry, hentry, pair, hpair, heq⟩ := h
    cases heq
    exact ⟨entry.2, hentry, hpair⟩
  · intro h
    obtain ⟨group, hgroup, hpair⟩ := h
    exact ⟨(outer, group), hgroup, (inner, value), hpair, rfl⟩

/-- The keys of groups with distinct keys are distinct. -/
theorem nodup_ungrouped {groups : List (ι × List (κ × ν))} (houter : (groups.map Prod.fst).Nodup)
    (hinner : ∀ entry ∈ groups, (entry.2.map Prod.fst).Nodup) :
    ((ungrouped groups).map Prod.fst).Nodup := by
  have hkey : ∀ (entry : ι × List (κ × ν)) (place : ι × κ),
      place ∈ (entry.2.map fun pair => ((entry.1, pair.1), pair.2)).map Prod.fst →
        place.1 = entry.1 := by
    intro entry place h
    rw [List.map_map, List.mem_map] at h
    obtain ⟨pair, _, rfl⟩ := h
    rfl
  rw [ungrouped, List.map_flatMap, List.nodup_flatMap]
  refine ⟨fun entry hentry => ?_, ?_⟩
  · rw [List.map_map]
    refine List.Nodup.of_map Prod.snd ?_
    rw [List.map_map]
    exact hinner entry hentry
  · refine (List.pairwise_map.mp houter).imp fun hne place hfirst hsecond => hne ?_
    exact (hkey _ place hfirst).symm.trans (hkey _ place hsecond)

/-- Nothing is listed without groups. -/
@[simp] theorem not_lists_nil {outer : ι} {inner : κ} {value : ν} :
    ¬ ListsAt [] outer inner value :=
  fun h => absurd h.choose_spec.1 List.not_mem_nil

/-- What two lists of groups have. -/
theorem lists_append {first second : List (ι × List (κ × ν))} {outer : ι} {inner : κ} {value : ν} :
    ListsAt (first ++ second) outer inner value ↔
      ListsAt first outer inner value ∨ ListsAt second outer inner value := by
  simp only [ListsAt, List.mem_append, or_and_right, exists_or]

/-- What many lists of groups have. -/
theorem lists_flatten {lists : List (List (ι × List (κ × ν)))} {outer : ι} {inner : κ}
    {value : ν} :
    ListsAt lists.flatten outer inner value ↔
      ∃ groups ∈ lists, ListsAt groups outer inner value := by
  induction lists with
  | nil => simp
  | cons groups lists ih => rw [List.flatten_cons, lists_append, ih, List.exists_mem_cons_iff]

/-! ## Records of records -/

namespace InsertionMap

/-- The record in which the entries are stored one after the other. -/
def ofEntries [DecidableEq κ] (entries : List (κ × ν)) : InsertionMap κ ν :=
  entries.foldl (fun map entry => map.set entry.1 entry.2) empty

variable [DecidableEq κ]

/-- A map of entries has the last value of each key. -/
theorem get?_ofEntries (entries : List (κ × ν)) (key : κ) :
    (ofEntries entries).get? key =
      assigned (fun _ => none) (entries.map fun entry => (entry.1, some entry.2)) key := by
  have hfold : ∀ (entries : List (κ × ν)) (map : InsertionMap κ ν),
      (entries.foldl (fun map entry => map.set entry.1 entry.2) map).get? key =
        assigned map.get? (entries.map fun entry => (entry.1, some entry.2)) key := by
    intro entries
    induction entries with
    | nil => exact fun _ => rfl
    | cons entry entries ih =>
        intro map
        have hset : (map.set entry.1 entry.2).get? =
            Function.update map.get? entry.1 (some entry.2) := by
          funext other
          rw [get?_set, Function.update_apply]
        rw [List.foldl_cons, ih, hset]
        rfl
  exact hfold entries empty

/-- What is found was stored. -/
theorem mem_of_get?_ofEntries {entries : List (κ × ν)} {key : κ} {value : ν}
    (h : (ofEntries entries).get? key = some value) : (key, value) ∈ entries := by
  rw [get?_ofEntries] at h
  rcases assigned_cases (fun _ => none) (entries.map fun entry => (entry.1, some entry.2)) key with
    hmem | hnone
  · rw [h, List.mem_map] at hmem
    obtain ⟨entry, hentry, heq⟩ := hmem
    cases heq
    exact hentry
  · cases hnone.2.symm.trans h

/-- A key under which something was stored is found. -/
theorem exists_get?_ofEntries {entries : List (κ × ν)} {key : κ} {value : ν}
    (h : (key, value) ∈ entries) : ∃ found, (ofEntries entries).get? key = some found := by
  have hkey : key ∈ (entries.map fun entry => (entry.1, some entry.2)).map Prod.fst := by
    rw [List.map_map]
    exact List.mem_map_of_mem h
  have hmem := @assigned_mem _ _ _ (fun _ => none) _ _ hkey
  obtain ⟨entry, _, heq⟩ := List.mem_map.mp hmem
  rw [get?_ofEntries]
  exact ⟨entry.2, (congrArg Prod.snd heq).symm⟩

/-- There is one way to enumerate one entry. -/
theorem nameEntries_of_entries {map : InsertionMap String ν} {entry : String × ν}
    (h : map.entries = [entry]) : map.nameEntries = [entry] :=
  List.perm_singleton.mp (h ▸ map.nameEntries_perm)

/-- The entries of a record with integers as keys in the order in which it enumerates them. -/
def propertyEntries (map : InsertionMap Int ν) : List (Int × ν) :=
  (propertyKeys map.keys).filterMap fun key => (map.get? key).map fun value => (key, value)

/-- The entries in the order of properties are those of the map. -/
theorem mem_propertyEntries {map : InsertionMap Int ν} {key : Int} {value : ν} :
    (key, value) ∈ map.propertyEntries ↔ map.get? key = some value := by
  simp only [propertyEntries, List.mem_filterMap, mem_propertyKeys, Option.map_eq_some_iff,
    Prod.mk.injEq]
  constructor
  · intro h
    obtain ⟨_, _, _, hvalue, rfl, rfl⟩ := h
    exact hvalue
  · intro h
    exact ⟨key, mem_keys_iff.mpr ⟨value, h⟩, value, h, rfl, rfl⟩

/-- The entries in the order of properties have no key twice. -/
theorem nodup_propertyEntries (map : InsertionMap Int ν) :
    (map.propertyEntries.map Prod.fst).Nodup := by
  rw [propertyEntries, List.map_filterMap]
  refine (propertyKeys_nodup map.keys_nodup).filterMap fun first second key hfirst hsecond => ?_
  simp only [Option.map_map, Option.mem_def, Option.map_eq_some_iff] at hfirst hsecond
  obtain ⟨_, _, rfl⟩ := hfirst
  obtain ⟨_, _, heq⟩ := hsecond
  exact heq.symm

end InsertionMap

variable [DecidableEq ι] [DecidableEq κ]

/-- The value that stands last under the keys. -/
def lastListed (groups : List (ι × List (κ × ν))) (place : ι × κ) : Option ν :=
  (InsertionMap.ofEntries (ungrouped groups)).get? place

/-- What is listed last is listed. -/
theorem lists_of_lastListed {groups : List (ι × List (κ × ν))} {outer : ι} {inner : κ} {value : ν}
    (h : lastListed groups (outer, inner) = some value) : ListsAt groups outer inner value :=
  mem_ungrouped.mp (InsertionMap.mem_of_get?_ofEntries h)

/-- What is listed has a last value. -/
theorem exists_lastListed {groups : List (ι × List (κ × ν))} {outer : ι} {inner : κ} {value : ν}
    (h : ListsAt groups outer inner value) : ∃ last, lastListed groups (outer, inner) = some last :=
  InsertionMap.exists_get?_ofEntries (mem_ungrouped.mpr h)

/-- The values stored one after the other. -/
theorem assigned_ungrouped {α : Type} (store : ν → α) (start : ι × κ → α)
    (groups : List (ι × List (κ × ν))) (place : ι × κ) :
    assigned start ((ungrouped groups).map fun entry => (entry.1, store entry.2)) place =
      ((lastListed groups place).map store).getD (start place) := by
  rw [lastListed, InsertionMap.get?_ofEntries, assigned_map]

/-- The record of the records of the groups. -/
def indexed (groups : List (ι × List (κ × ν))) : InsertionMap ι (InsertionMap κ ν) :=
  .ofEntries (groups.map fun entry => (entry.1, .ofEntries entry.2))

/-- What is found in the record was listed. -/
theorem lists_of_indexed {groups : List (ι × List (κ × ν))} {outer : ι} {inner : κ} {value : ν}
    {record : InsertionMap κ ν} (houter : (indexed groups).get? outer = some record)
    (hinner : record.get? inner = some value) : ListsAt groups outer inner value := by
  obtain ⟨entry, hentry, heq⟩ := List.mem_map.mp (InsertionMap.mem_of_get?_ofEntries houter)
  cases heq
  exact ⟨entry.2, hentry, InsertionMap.mem_of_get?_ofEntries hinner⟩

/-- What is listed in distinct groups is found. -/
theorem exists_indexed {groups : List (ι × List (κ × ν))} (hnodup : (groups.map Prod.fst).Nodup)
    {outer : ι} {inner : κ} {value : ν} (h : ListsAt groups outer inner value) :
    ∃ record found, (indexed groups).get? outer = some record ∧
      record.get? inner = some found := by
  obtain ⟨group, hgroup, hvalue⟩ := h
  have hmapped : (outer, InsertionMap.ofEntries group) ∈
      groups.map fun entry => (entry.1, InsertionMap.ofEntries entry.2) :=
    List.mem_map.mpr ⟨_, hgroup, rfl⟩
  obtain ⟨record, hrecord⟩ := InsertionMap.exists_get?_ofEntries hmapped
  obtain ⟨⟨name, list⟩, hentry, heq⟩ :=
    List.mem_map.mp (InsertionMap.mem_of_get?_ofEntries hrecord)
  cases heq
  have hsame := List.inj_on_of_nodup_map hnodup hentry hgroup rfl
  cases hsame
  obtain ⟨found, hfound⟩ := InsertionMap.exists_get?_ofEntries hvalue
  exact ⟨_, found, hrecord, hfound⟩

end KafkaJs.Data
