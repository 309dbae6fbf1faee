import Mathlib.Algebra.Group.Int.Defs
import Mathlib.Algebra.Group.Nat.Defs
import Mathlib.Data.List.Nodup
import Mathlib.Data.List.Sort

/-!
# Maps that remember insertion order

`InsertionMap κ ν` is the key-value map of a language whose maps enumerate their entries in the
order in which the keys were first inserted: setting a present key keeps its place, deleting and
setting it again moves it to the end. The keys are distinct by construction. `get?_set` and
`get?_delete` are the two equations by which all lookups reduce; `mem_entries_iff` connects the
enumeration with lookup.

`propertyKeys` is the enumeration order of a record whose keys are integers: array indices in
ascending order first, every other key afterwards in insertion order; `nameEntries` is that of a
record whose keys are names. `inheritedNames` lists the names a record answers to without storing
them.
-/

namespace KafkaJs.Data

/-- A map given by its entries in insertion order, with distinct keys. -/
structure InsertionMap (κ ν : Type) where
  entries : List (κ × ν)
  nodup : (entries.map Prod.fst).Nodup
  deriving DecidableEq

namespace InsertionMap

variable {κ ν : Type}

/-- The map without entries. -/
def empty : InsertionMap κ ν := ⟨[], List.nodup_nil⟩

/-- The keys in insertion order. -/
def keys (map : InsertionMap κ ν) : List κ := map.entries.map Prod.fst

/-- The values in the order of their keys. -/
def values (map : InsertionMap κ ν) : List ν := map.entries.map Prod.snd

/-- No key comes twice. -/
theorem keys_nodup (map : InsertionMap κ ν) : map.keys.Nodup := map.nodup

/-- No entry comes twice. -/
theorem entries_nodup (map : InsertionMap κ ν) : map.entries.Nodup := map.nodup.of_map

variable [DecidableEq κ]

/-- The value stored under a key. -/
def get? (map : InsertionMap κ ν) (key : κ) : Option ν :=
  (map.entries.find? fun entry => entry.1 = key).map Prod.snd

/-- Whether a key is present. -/
def has (map : InsertionMap κ ν) (key : κ) : Bool := (map.get? key).isSome

/-- Overwrite the value of one key, leaving every entry in its place. -/
def replace (key : κ) (value : ν) (entries : List (κ × ν)) : List (κ × ν) :=
  entries.map fun entry => if entry.1 = key then (key, value) else entry

/-- Replacing a value keeps the keys. -/
theorem map_fst_replace (key : κ) (value : ν) (entries : List (κ × ν)) :
    (replace key value entries).map Prod.fst = entries.map Prod.fst := by
  induction entries with
  | nil => rfl
  | cons entry entries ih =>
      simp only [replace, List.map_cons, List.cons.injEq] at ih ⊢
      refine ⟨?_, ih⟩
      split
      · next h => exact h.symm
      · rfl

/-- Store a value: in place if the key is present, at the end otherwise. -/
def set (map : InsertionMap κ ν) (key : κ) (value : ν) : InsertionMap κ ν :=
  if h : key ∈ map.keys then
    ⟨replace key value map.entries, by rw [map_fst_replace]; exact map.nodup⟩
  else
    ⟨map.entries ++ [(key, value)], by
      rw [List.map_append]
      exact map.nodup.append (List.nodup_singleton key)
        (List.disjoint_singleton.mpr h)⟩

/-- Remove a key. -/
def delete (map : InsertionMap κ ν) (key : κ) : InsertionMap κ ν :=
  ⟨map.entries.filter fun entry => entry.1 ≠ key,
    map.nodup.sublist ((List.filter_sublist).map Prod.fst)⟩

/-- Nothing is found in the empty map. -/
@[simp] theorem get?_empty (key : κ) : (empty : InsertionMap κ ν).get? key = none := rfl

/-- An entry is enumerated exactly when lookup finds it. -/
theorem mem_entries_iff {map : InsertionMap κ ν} {key : κ} {value : ν} :
    (key, value) ∈ map.entries ↔ map.get? key = some value := by
  obtain ⟨entries, hnodup⟩ := map
  simp only [get?]
  induction entries with
  | nil => simp
  | cons entry entries ih =>
      obtain ⟨first, stored⟩ := entry
      simp only [List.map_cons, List.nodup_cons] at hnodup
      have hrest := ih hnodup.2
      by_cases h : first = key
      · subst h
        have habsent : (first, value) ∉ entries := fun hmem =>
          hnodup.1 (List.mem_map.mpr ⟨_, hmem, rfl⟩)
        simp [habsent, eq_comm]
      · rw [List.mem_cons, List.find?_cons_of_neg (by simpa using h), ← hrest]
        simp [Prod.ext_iff, Ne.symm h]

/-- A key is enumerated exactly when lookup finds some value for it. -/
theorem mem_keys_iff {map : InsertionMap κ ν} {key : κ} :
    key ∈ map.keys ↔ ∃ value, map.get? key = some value := by
  simp only [keys, List.mem_map, Prod.exists, exists_and_right, exists_eq_right,
    mem_entries_iff]

/-- A map has its keys. -/
theorem has_iff_mem_keys {map : InsertionMap κ ν} {key : κ} :
    map.has key = true ↔ key ∈ map.keys := by
  rw [mem_keys_iff, has, Option.isSome_iff_exists]

/-- Nothing is found for what is no key. -/
theorem get?_eq_none_iff {map : InsertionMap κ ν} {key : κ} :
    map.get? key = none ↔ key ∉ map.keys := by
  rw [mem_keys_iff, Option.eq_none_iff_forall_not_mem, not_exists]
  rfl

/-- Two lookups of one enumerated key agree. -/
theorem mem_entries_unique {map : InsertionMap κ ν} {key : κ} {first second : ν}
    (hfirst : (key, first) ∈ map.entries) (hsecond : (key, second) ∈ map.entries) :
    first = second :=
  Option.some.inj ((mem_entries_iff.mp hfirst).symm.trans (mem_entries_iff.mp hsecond))

/-- The entries after a store: the new one, and the old ones under other keys. -/
theorem mem_entries_set {map : InsertionMap κ ν} {key other : κ} {value stored : ν} :
    (other, stored) ∈ (map.set key value).entries ↔
      (other = key ∧ stored = value) ∨ (other ≠ key ∧ (other, stored) ∈ map.entries) := by
  unfold set
  split
  · next h =>
      obtain ⟨old, hold⟩ := mem_keys_iff.mp h
      simp only [replace, List.mem_map, Prod.exists]
      constructor
      · rintro ⟨k, v, hmem, heq⟩
        split at heq
        · cases heq
          exact Or.inl ⟨rfl, rfl⟩
        · next hne =>
            cases heq
            exact Or.inr ⟨hne, hmem⟩
      · rintro (⟨rfl, rfl⟩ | ⟨hne, hmem⟩)
        · exact ⟨other, old, mem_entries_iff.mpr hold, by simp⟩
        · exact ⟨other, stored, hmem, by simp [hne]⟩
  · next h =>
      have hne : ∀ stored, (key, stored) ∉ map.entries := fun stored hmem =>
        h (List.mem_map.mpr ⟨_, hmem, rfl⟩)
      simp only [List.mem_append, List.mem_singleton, Prod.mk.injEq]
      constructor
      · rintro (hmem | heq)
        · exact Or.inr ⟨fun heq => hne stored (heq ▸ hmem), hmem⟩
        · exact Or.inl heq
      · rintro (heq | ⟨_, hmem⟩)
        · exact Or.inr heq
        · exact Or.inl hmem

/-- Lookup after a store. -/
theorem get?_set (map : InsertionMap κ ν) (key other : κ) (value : ν) :
    (map.set key value).get? other = if other = key then some value else map.get? other := by
  ext stored
  rw [← mem_entries_iff, mem_entries_set]
  split
  · next h => simp [h, eq_comm]
  · next h => simp [h, mem_entries_iff]

/-- What was set is found. -/
@[simp] theorem get?_set_self (map : InsertionMap κ ν) (key : κ) (value : ν) :
    (map.set key value).get? key = some value := by
  simp [get?_set]

/-- Setting a key leaves the others alone. -/
theorem get?_set_of_ne (map : InsertionMap κ ν) {key other : κ} (value : ν) (h : other ≠ key) :
    (map.set key value).get? other = map.get? other := by
  simp [get?_set, h]

/-- Lookup after a removal. -/
theorem get?_delete (map : InsertionMap κ ν) (key other : κ) :
    (map.delete key).get? other = if other = key then none else map.get? other := by
  ext stored
  rw [← mem_entries_iff]
  simp only [delete, List.mem_filter, decide_eq_true_eq]
  split
  · next h => simp [h]
  · next h => simp [h, mem_entries_iff]

/-- What was deleted is not found. -/
@[simp] theorem get?_delete_self (map : InsertionMap κ ν) (key : κ) :
    (map.delete key).get? key = none := by
  simp [get?_delete]

/-- At most one entry has a given key. -/
theorem filter_entries_key (map : InsertionMap κ ν) (key : κ) :
    (map.entries.filter fun entry => entry.1 = key) =
      ((map.get? key).map fun value => (key, value)).toList := by
  obtain ⟨entries, hnodup⟩ := map
  simp only [get?]
  induction entries with
  | nil => rfl
  | cons entry entries ih =>
      obtain ⟨first, stored⟩ := entry
      simp only [List.map_cons, List.nodup_cons] at hnodup
      by_cases h : first = key
      · subst h
        have habsent : ∀ entry ∈ entries, entry.1 ≠ first := fun entry hmem heq =>
          hnodup.1 (List.mem_map.mpr ⟨entry, hmem, heq⟩)
        simpa using habsent
      · rw [List.filter_cons_of_neg (by simpa using h), ih hnodup.2,
          List.find?_cons_of_neg (by simpa using h)]

/-- A removal takes out the value under the key, if there is one. -/
theorem values_perm_delete (map : InsertionMap κ ν) (key : κ) :
    map.values.Perm ((map.get? key).toList ++ (map.delete key).values) := by
  have hsplit := List.filter_append_perm (fun entry : κ × ν => decide (entry.1 = key)) map.entries
  rw [filter_entries_key] at hsplit
  have hvalues := (hsplit.map Prod.snd).symm
  have hkey : (((map.get? key).map fun value => (key, value)).toList).map Prod.snd =
      (map.get? key).toList := by
    cases map.get? key <;> rfl
  rw [List.map_append, hkey] at hvalues
  simpa [values, delete] using hvalues

/-- A store under a new key adds a value at the end. -/
theorem values_set {map : InsertionMap κ ν} {key : κ} (h : map.has key = false) (value : ν) :
    (map.set key value).values = map.values ++ [value] := by
  have habsent : key ∉ map.keys := fun hmem => by simp [has_iff_mem_keys.mpr hmem] at h
  rw [set, dif_neg habsent, values, List.map_append]
  rfl

/-- A key that was absent is gone when it is removed again. -/
theorem entries_delete_set {map : InsertionMap κ ν} {key : κ} (h : map.has key = false)
    (value : ν) : ((map.set key value).delete key).entries = map.entries := by
  have habsent : key ∉ map.keys := fun hmem => by simp [has_iff_mem_keys.mpr hmem] at h
  rw [set, dif_neg habsent]
  show (map.entries ++ [(key, value)]).filter (fun entry => entry.1 ≠ key) = map.entries
  rw [List.filter_append, List.filter_singleton, List.filter_eq_self.mpr]
  · simp
  · intro entry hentry
    exact decide_eq_true fun heq => habsent (List.mem_map.mpr ⟨entry, hentry, heq⟩)

/-- The values of a map. -/
theorem mem_values_iff {map : InsertionMap κ ν} {value : ν} :
    value ∈ map.values ↔ ∃ key, map.get? key = some value := by
  simp only [values, List.mem_map, Prod.exists, exists_eq_right, mem_entries_iff]

/-- The keys after one was set. -/
theorem mem_keys_set {map : InsertionMap κ ν} {key other : κ} {value : ν} :
    other ∈ (map.set key value).keys ↔ other = key ∨ other ∈ map.keys := by
  simp only [mem_keys_iff, get?_set]
  by_cases h : other = key <;> simp [h]

/-- An entry is in the map, the others are in what is left without its key. -/
theorem entries_perm_delete {map : InsertionMap κ ν} {key : κ} {value : ν}
    (h : map.get? key = some value) :
    map.entries.Perm ((key, value) :: (map.delete key).entries) := by
  have hnotin : (key, value) ∉ (map.delete key).entries := by simp [delete]
  rw [List.perm_ext_iff_of_nodup map.entries_nodup
    (List.nodup_cons.mpr ⟨hnotin, (map.delete key).entries_nodup⟩)]
  rintro ⟨other, stored⟩
  rw [List.mem_cons, mem_entries_iff, mem_entries_iff, get?_delete, Prod.mk.injEq]
  by_cases hkey : other = key
  · subst hkey
    rw [h, if_pos rfl]
    simp [eq_comm]
  · simp [hkey]

/-- A removed key is not in the map, so nothing else is removed with it. -/
theorem delete_set_self (map : InsertionMap κ ν) (key : κ) (value : ν) :
    ((map.set key value).delete key).entries.Perm (map.delete key).entries := by
  rw [List.perm_ext_iff_of_nodup (entries_nodup _) (entries_nodup _)]
  rintro ⟨other, stored⟩
  rw [mem_entries_iff, mem_entries_iff, get?_delete, get?_delete, get?_set]
  by_cases hkey : other = key
  · rw [if_pos hkey, if_pos hkey]
  · rw [if_neg hkey, if_neg hkey, if_neg hkey]

/-- Where a store adds to what an entry stands for, it adds to what the map stands for. -/
theorem flatMap_set_perm {γ : Type} {f : κ × ν → List γ} {map : InsertionMap κ ν} {key : κ}
    {value : ν} {more : List γ}
    (h : (f (key, value)).Perm (((map.get? key).toList.flatMap fun old => f (key, old)) ++ more)) :
    ((map.set key value).entries.flatMap f).Perm (map.entries.flatMap f ++ more) := by
  have hset := ((entries_perm_delete (map.get?_set_self key value)).trans
    ((map.delete_set_self key value).cons _)).flatMap_right f
  have hold : (map.entries.flatMap f).Perm
      (((map.get? key).toList.flatMap fun old => f (key, old)) ++
        (map.delete key).entries.flatMap f) := by
    cases hget : map.get? key with
    | none =>
        have hsame : (map.delete key).entries = map.entries := by
          refine List.filter_eq_self.mpr fun entry hentry => decide_eq_true fun hkey => ?_
          exact get?_eq_none_iff.mp hget (List.mem_map.mpr ⟨entry, hentry, hkey⟩)
        rw [hsame]
        exact List.Perm.refl _
    | some old =>
        have hentries := (entries_perm_delete hget).flatMap_right f
        simpa using hentries
  rw [List.flatMap_cons] at hset
  refine hset.trans ((h.append_right _).trans ?_)
  refine List.Perm.trans ?_ (hold.symm.append_right more)
  rw [List.append_assoc, List.append_assoc]
  exact List.perm_append_comm.append_left _

/-- Looking up all keys, and others besides, goes through the entries. -/
theorem flatMap_get?_perm {γ : Type} (f : κ → ν → List γ) {map : InsertionMap κ ν} {keys : List κ}
    (hnodup : keys.Nodup) (hkeys : ∀ key ∈ map.keys, key ∈ keys) :
    (keys.flatMap fun key => (map.get? key).toList.flatMap (f key)).Perm
      (map.entries.flatMap fun entry => f entry.1 entry.2) := by
  have hpresent : (keys.filter fun key => key ∈ map.keys).Perm map.keys := by
    rw [List.perm_ext_iff_of_nodup (hnodup.filter _) map.keys_nodup]
    intro key
    rw [List.mem_filter, decide_eq_true_eq]
    exact ⟨And.right, fun hkey => ⟨hkeys key hkey, hkey⟩⟩
  have habsent : (keys.filter fun key => !decide (key ∈ map.keys)).flatMap
      (fun key => (map.get? key).toList.flatMap (f key)) = [] := by
    refine List.flatMap_eq_nil_iff.mpr fun key hkey => ?_
    have hnot : key ∉ map.keys := by simpa using (List.mem_filter.mp hkey).2
    rw [get?_eq_none_iff.mpr hnot]
    rfl
  have hentries : map.keys.flatMap (fun key => (map.get? key).toList.flatMap (f key)) =
      map.entries.flatMap fun entry => f entry.1 entry.2 := by
    rw [InsertionMap.keys, List.flatMap_map]
    refine List.flatMap_congr fun entry hentry => ?_
    rw [mem_entries_iff.mp hentry]
    exact List.append_nil _
  have hsplit := (List.filter_append_perm (fun key => decide (key ∈ map.keys)) keys).symm
  have hsplit := hsplit.flatMap_right fun key => (map.get? key).toList.flatMap (f key)
  rw [List.flatMap_append, habsent, List.append_nil] at hsplit
  rw [← hentries]
  exact hsplit.trans (hpresent.flatMap_right _)

end InsertionMap

/-- Integer keys in the order in which a record enumerates them. -/
def propertyKeys (keys : List Int) : List Int :=
  (keys.filter fun key => 0 ≤ key ∧ key < 2 ^ 32 - 1).insertionSort (· ≤ ·) ++
    keys.filter fun key => ¬ (0 ≤ key ∧ key < 2 ^ 32 - 1)

/-- Enumerating a record's keys only reorders them. -/
theorem propertyKeys_perm (keys : List Int) : (propertyKeys keys).Perm keys := by
  have hsplit := List.filter_append_perm (fun key : Int => decide (0 ≤ key ∧ key < 2 ^ 32 - 1)) keys
  refine List.Perm.trans (List.Perm.append_right _ (List.perm_insertionSort _ _)) ?_
  simpa only [propertyKeys, decide_not] using hsplit

/-- Ordering the keys keeps them. -/
theorem mem_propertyKeys {keys : List Int} {key : Int} :
    key ∈ propertyKeys keys ↔ key ∈ keys :=
  (propertyKeys_perm keys).mem_iff

/-- Ordering the keys repeats none. -/
theorem propertyKeys_nodup {keys : List Int} (h : keys.Nodup) : (propertyKeys keys).Nodup :=
  (propertyKeys_perm keys).nodup_iff.mpr h

/-- The number that a name is in canonical notation, for a record's array indices. -/
def arrayIndex? (name : String) : Option Nat :=
  name.toNat?.filter fun index => toString index = name ∧ index < 2 ^ 32 - 1

/-- The entries of a record with names as keys in the order in which it enumerates them: array
indices in ascending order first, every other name afterwards in insertion order. -/
def InsertionMap.nameEntries {ν : Type} (map : InsertionMap String ν) : List (String × ν) :=
  (map.entries.filter fun entry => (arrayIndex? entry.1).isSome).insertionSort
      (fun first second => (arrayIndex? first.1).getD 0 ≤ (arrayIndex? second.1).getD 0) ++
    map.entries.filter fun entry => ¬ (arrayIndex? entry.1).isSome

/-- Enumerating a record only reorders its entries. -/
theorem InsertionMap.nameEntries_perm {ν : Type} (map : InsertionMap String ν) :
    map.nameEntries.Perm map.entries := by
  have hsplit := List.filter_append_perm
    (fun entry : String × ν => (arrayIndex? entry.1).isSome) map.entries
  refine List.Perm.trans (List.Perm.append_right _ (List.perm_insertionSort _ _)) ?_
  simpa only [decide_not, Bool.decide_coe] using hsplit

/-- The names that every record literal inherits from `Object.prototype`: reading one of them
finds a value even where nothing was stored. -/
def inheritedNames : List String :=
  ["constructor", "__defineGetter__", "__defineSetter__", "hasOwnProperty", "__lookupGetter__",
    "__lookupSetter__", "isPrototypeOf", "propertyIsEnumerable", "toString", "valueOf",
    "__proto__", "toLocaleString"]

end KafkaJs.Data
