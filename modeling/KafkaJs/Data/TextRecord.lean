import KafkaJs.Data.InsertionMap
import KafkaJs.Data.Utf8
import Mathlib.Data.List.Lex

/-!
# Records with texts as names

Texts are sorted by their code units. A record literal has texts as names: `ownEntries` is the order
in which it enumerates them, and `assignProperty` is `Object.assign` of a property, which changes
the prototype of the record instead of storing a value where the name is `__proto__`.
-/

namespace KafkaJs.Data

namespace Text

/-- The name under which a record answers with its prototype. -/
def proto : Text := ofString "__proto__"

/-- The value of a decimal digit. -/
def digit? (unit : UInt16) : Option Nat :=
  if 48 ≤ unit.toNat ∧ unit.toNat < 58 then some (unit.toNat - 48) else none

/-- The number that a name is in canonical notation, for a record's array indices. -/
def arrayIndex? (name : Text) : Option Nat := do
  let digits ← name.mapM digit?
  if digits = [] ∨ digits.head? = some 0 ∧ digits ≠ [0] then none
  else
    let index := digits.foldl (fun index digit => 10 * index + digit) 0
    if index < 2 ^ 32 - 1 then some index else none

/-- A well-formed text stays as it is. -/
theorem toWellFormed_toWellFormed (text : Text) :
    text.toWellFormed.toWellFormed = text.toWellFormed := by
  rw [toWellFormed, toWellFormed, scalars_ofScalars]

/-- The order of texts by code units. -/
def ByUnits (first second : Text) : Prop :=
  first.map UInt16.toNat ≤ second.map UInt16.toNat

/-- The order by code units is decidable. -/
instance : DecidableRel ByUnits := fun _ _ => inferInstanceAs (Decidable (_ ≤ _))

/-- Any two texts are ordered by code units. -/
instance : Std.Total ByUnits := ⟨fun _ _ => le_total _ _⟩

/-- The order by code units is transitive. -/
instance : IsTrans Text ByUnits := ⟨fun _ _ _ => le_trans⟩

/-- Texts that are ordered both ways have the same code units. -/
instance : Std.Antisymm ByUnits :=
  ⟨fun _ _ h h' => List.map_injective_iff.mpr (fun _ _ => UInt16.toNat_inj.mp) (le_antisymm h h')⟩

/-- `Array.prototype.sort` without a comparison. -/
def sort (texts : List Text) : List Text := texts.insertionSort ByUnits

/-- Sorting keeps the texts. -/
theorem sort_perm (texts : List Text) : (sort texts).Perm texts := List.perm_insertionSort _ texts

/-- The order in which texts are given does not matter. -/
theorem sort_eq_of_perm {texts other : List Text} (h : other.Perm texts) :
    sort other = sort texts :=
  List.Perm.eq_of_pairwise' (List.pairwise_insertionSort ByUnits other)
    (List.pairwise_insertionSort ByUnits texts)
    ((sort_perm other).trans (h.trans (sort_perm texts).symm))

end Text

namespace InsertionMap

variable {ν : Type}

/-- Whether the name of an entry is an array index. -/
def isIndex (entry : Text × ν) : Bool := (Text.arrayIndex? entry.1).isSome

/-- The order of entries by array index. -/
def ByIndex (first second : Text × ν) : Prop :=
  (Text.arrayIndex? first.1).getD 0 ≤ (Text.arrayIndex? second.1).getD 0

/-- The order by array index is decidable. -/
instance : DecidableRel (@ByIndex ν) := fun _ _ => inferInstanceAs (Decidable (_ ≤ _))

/-- Any two entries are ordered by array index. -/
instance : Std.Total (@ByIndex ν) := ⟨fun _ _ => Nat.le_total _ _⟩

/-- The order by array index is transitive. -/
instance : IsTrans (Text × ν) ByIndex := ⟨fun _ _ _ => Nat.le_trans⟩

/-- The entries of a record in the order in which it enumerates them: array indices in ascending
order first, every other name afterwards in insertion order. -/
def ownEntries (map : InsertionMap Text ν) : List (Text × ν) :=
  (map.entries.filter isIndex).insertionSort ByIndex ++
    map.entries.filter fun entry => !isIndex entry

/-- Enumerating a record only reorders its entries. -/
theorem ownEntries_perm (map : InsertionMap Text ν) : map.ownEntries.Perm map.entries :=
  ((List.perm_insertionSort _ _).append_right _).trans
    (List.filter_append_perm isIndex map.entries)

/-- No key is listed twice among an object's own. -/
theorem ownEntries_nodup (map : InsertionMap Text ν) : (map.ownEntries.map Prod.fst).Nodup :=
  (map.ownEntries_perm.map Prod.fst).nodup_iff.mpr map.nodup

/-- A record filled in the order in which another one is enumerated is enumerated like it. -/
theorem ownEntries_eq {map other : InsertionMap Text ν} (h : other.entries = map.ownEntries) :
    other.ownEntries = map.ownEntries := by
  have hindexed : ∀ entry ∈ (map.entries.filter isIndex).insertionSort ByIndex,
      isIndex entry = true := fun entry hentry =>
    (List.mem_filter.mp ((List.perm_insertionSort _ _).mem_iff.mp hentry)).2
  have hnamed : ∀ entry ∈ map.entries.filter fun entry => !isIndex entry,
      (!isIndex entry) = true := fun entry hentry => (List.mem_filter.mp hentry).2
  have hnoIndex : (map.entries.filter fun entry => !isIndex entry).filter isIndex = [] := by
    rw [List.filter_eq_nil_iff]
    intro entry hentry
    simpa using hnamed entry hentry
  have hnoName : ((map.entries.filter isIndex).insertionSort ByIndex).filter
      (fun entry => !isIndex entry) = [] := by
    rw [List.filter_eq_nil_iff]
    intro entry hentry
    simpa using hindexed entry hentry
  have hfirst : map.ownEntries.filter isIndex =
      (map.entries.filter isIndex).insertionSort ByIndex := by
    rw [ownEntries, List.filter_append, List.filter_eq_self.mpr hindexed, hnoIndex,
      List.append_nil]
  have hsecond : map.ownEntries.filter (fun entry => !isIndex entry) =
      map.entries.filter fun entry => !isIndex entry := by
    rw [ownEntries, List.filter_append, List.filter_eq_self.mpr hnamed, hnoName, List.nil_append]
  rw [ownEntries, h, hfirst, hsecond,
    (List.pairwise_insertionSort ByIndex _).insertionSort_eq]
  rfl

/-- `Object.assign(record, { [name]: value })` for an object as value. -/
def assignProperty (record : InsertionMap Text ν) (name : Text) (value : ν) :
    InsertionMap Text ν :=
  if name = Text.proto then record else record.set name value

/-- A record filled with properties of distinct new names holds them in order. -/
theorem entries_foldl_set {map : InsertionMap Text ν} {entries : List (Text × ν)}
    (hnodup : (entries.map Prod.fst).Nodup) (hnew : ∀ entry ∈ entries, entry.1 ∉ map.keys) :
    (entries.foldl (fun record entry => record.set entry.1 entry.2) map).entries =
      map.entries ++ entries := by
  induction entries generalizing map with
  | nil => simp
  | cons entry entries ih =>
      obtain ⟨hnotin, hrest⟩ := List.nodup_cons.mp hnodup
      have hfirst := hnew entry List.mem_cons_self
      have hset : (map.set entry.1 entry.2).entries = map.entries ++ [entry] := by
        rw [set, dif_neg hfirst]
      rw [List.foldl_cons, ih hrest, hset, List.append_assoc, List.singleton_append]
      intro other hother hkey
      rcases mem_keys_set.mp hkey with hsame | hold
      · exact hnotin (List.mem_map.mpr ⟨other, hother, hsame⟩)
      · exact hnew other (List.mem_cons_of_mem _ hother) hold

end InsertionMap

end KafkaJs.Data
