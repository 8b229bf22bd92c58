import Mathlib.Data.Finmap

/-!
# Finite maps with a limit on the number of entries

A bounded map is a finite map together with the proof that its number of
entries respects a fixed limit.  Inserting a new key into a full map fails;
overwriting a present key, erasing, and modifying in place never do.
-/

namespace Foundations

/-- A limit on the number of entries.  `none` stands for no limit. -/
abbrev Limit := Option Nat

/-- A number of entries respects a limit. -/
def Limit.Allows : Limit → Nat → Prop
  | none, _ => True
  | some bound, count => count ≤ bound

instance (limit : Limit) (count : Nat) : Decidable (limit.Allows count) :=
  match limit with
  | none => .isTrue trivial
  | some bound => Nat.decLe count bound

/-- A limit that allows some number of entries allows every smaller number. -/
theorem Limit.Allows.anti
    {limit : Limit}
    {smaller larger : Nat}
    (allowed : limit.Allows larger)
    (le : smaller ≤ larger) :
    limit.Allows smaller := by
  cases limit with
  | none => trivial
  | some bound => exact le.trans allowed

/-- A finite map from keys to values whose size respects the limit. -/
structure BoundedMap (κ : Type u) (ν : Type v) (limit : Limit) where
  /-- The entries of the map. -/
  entries : Finmap fun _ : κ => ν
  /-- The number of entries respects the limit. -/
  allowed : limit.Allows entries.keys.card

namespace BoundedMap

variable {κ : Type u} {ν : Type v} {limit : Limit} [DecidableEq κ]

/-- The value stored under a key. -/
def lookup (map : BoundedMap κ ν limit) (key : κ) : Option ν :=
  map.entries.lookup key

/-- The keys of a bounded map. -/
def keys (map : BoundedMap κ ν limit) : Finset κ :=
  map.entries.keys

/-- Bounded maps with the same lookups are equal. -/
theorem ext_lookup
    {left right : BoundedMap κ ν limit}
    (agree : ∀ key, left.lookup key = right.lookup key) :
    left = right := by
  obtain ⟨leftEntries, leftAllowed⟩ := left
  obtain ⟨rightEntries, rightAllowed⟩ := right
  have equal : leftEntries = rightEntries := Finmap.ext_lookup agree
  subst equal
  rfl

theorem mem_keys_iff
    (map : BoundedMap κ ν limit)
    (key : κ) :
    key ∈ map.keys ↔ ∃ value, map.lookup key = some value := by
  rw [keys, Finmap.mem_keys, Finmap.mem_iff]
  rfl

theorem lookup_eq_none_iff
    (map : BoundedMap κ ν limit)
    (key : κ) :
    map.lookup key = none ↔ key ∉ map.keys := by
  rw [keys, Finmap.mem_keys]
  exact Finmap.lookup_eq_none

/-- Entries with all the keys and their values are the content of the map. -/
theorem mem_entries_iff_lookup
    {map : BoundedMap κ ν limit}
    {entries : List (κ × ν)}
    (keys : map.keys = (entries.map Prod.fst).toFinset)
    (stored : ∀ entry ∈ entries, map.lookup entry.1 = some entry.2)
    (key : κ)
    (value : ν) :
    (key, value) ∈ entries ↔ map.lookup key = some value := by
  constructor
  · exact stored (key, value)
  · intro present
    have inKeys : key ∈ map.keys := (map.mem_keys_iff key).mpr ⟨value, present⟩
    rw [keys, List.mem_toFinset] at inKeys
    obtain ⟨entry, member, rfl⟩ := List.mem_map.mp inKeys
    rw [stored entry member] at present
    obtain rfl := Option.some.inj present
    exact member

omit [DecidableEq κ] in
/-- The number of keys respects the limit. -/
theorem keys_card_allowed (map : BoundedMap κ ν limit) :
    limit.Allows map.keys.card :=
  map.allowed

/-- The map without entries. -/
def empty : BoundedMap κ ν limit where
  entries := ∅
  allowed := by
    cases limit with
    | none => trivial
    | some bound => simp [Limit.Allows]

@[simp] theorem lookup_empty (key : κ) :
    (empty : BoundedMap κ ν limit).lookup key = none :=
  Finmap.lookup_empty key

/-- Remove a key. -/
def erase (map : BoundedMap κ ν limit) (key : κ) : BoundedMap κ ν limit where
  entries := map.entries.erase key
  allowed := by
    rw [Finmap.keys_erase]
    exact map.allowed.anti (Finset.card_erase_le)

@[simp] theorem lookup_erase
    (map : BoundedMap κ ν limit)
    (key : κ) :
    (map.erase key).lookup = Function.update map.lookup key none := by
  funext other
  by_cases same : other = key
  · subst same
    rw [Function.update_self]
    exact Finmap.lookup_erase other map.entries
  · rw [Function.update_of_ne same]
    exact Finmap.lookup_erase_ne same

/-- One more key still respects the limit, or the key is present already. -/
def HasRoom (map : BoundedMap κ ν limit) (key : κ) : Prop :=
  limit.Allows (insert key map.keys).card

instance (map : BoundedMap κ ν limit) (key : κ) : Decidable (map.HasRoom key) :=
  inferInstanceAs (Decidable (limit.Allows _))

/-- A present key can always be overwritten. -/
theorem hasRoom_of_mem
    {map : BoundedMap κ ν limit}
    {key : κ}
    (present : key ∈ map.keys) :
    map.HasRoom key := by
  rw [HasRoom, Finset.insert_eq_of_mem present]
  exact map.allowed

private theorem keys_insert
    (entries : Finmap fun _ : κ => ν)
    (key : κ)
    (value : ν) :
    (entries.insert key value).keys = insert key entries.keys := by
  ext other
  rw [Finmap.mem_keys, Finmap.mem_insert, Finset.mem_insert, Finmap.mem_keys]

private theorem lookup_entries_insert
    (entries : Finmap fun _ : κ => ν)
    (key : κ)
    (value : ν) :
    (fun other => (entries.insert key value).lookup other) =
      Function.update (fun other => entries.lookup other) key (some value) := by
  funext other
  by_cases same : other = key
  · subst same
    rw [Function.update_self]
    exact Finmap.lookup_insert entries
  · rw [Function.update_of_ne same]
    exact Finmap.lookup_insert_of_ne entries same

/-- Store a value under a key.  Fails when the key is new and the map full. -/
def tryInsert
    (map : BoundedMap κ ν limit)
    (key : κ)
    (value : ν) : Option (BoundedMap κ ν limit) :=
  if room : map.HasRoom key then
    some ⟨map.entries.insert key value, by rw [keys_insert]; exact room⟩
  else none

/-- An insertion succeeds exactly when there is room. -/
theorem tryInsert_isSome
    (map : BoundedMap κ ν limit)
    (key : κ)
    (value : ν) :
    (map.tryInsert key value).isSome = decide (map.HasRoom key) := by
  unfold tryInsert
  by_cases room : map.HasRoom key
  · simp [room]
  · simp [room]

/-- A successful insertion changes the inserted key only. -/
theorem lookup_of_tryInsert
    {map inserted : BoundedMap κ ν limit}
    {key : κ}
    {value : ν}
    (success : map.tryInsert key value = some inserted) :
    inserted.lookup = Function.update map.lookup key (some value) := by
  unfold tryInsert at success
  split at success
  · obtain rfl := Option.some.inj success
    exact lookup_entries_insert map.entries key value
  · cases success

/-- Change the value under a key in place.  An absent key stays absent. -/
def modify
    (map : BoundedMap κ ν limit)
    (key : κ)
    (change : ν → ν) : BoundedMap κ ν limit :=
  match found : map.entries.lookup key with
  | none => map
  | some value =>
      ⟨map.entries.insert key (change value), by
        have present : key ∈ map.keys := by
          rw [mem_keys_iff]
          exact ⟨value, found⟩
        rw [keys_insert]
        exact hasRoom_of_mem present⟩

@[simp] theorem lookup_modify
    (map : BoundedMap κ ν limit)
    (key : κ)
    (change : ν → ν) :
    (map.modify key change).lookup =
      Function.update map.lookup key ((map.lookup key).map change) := by
  unfold modify
  split
  · next found =>
      have absent : map.lookup key = none := found
      rw [absent, Option.map_none, Function.update_eq_self_iff.mpr absent.symm]
  · next value found =>
      have present : map.lookup key = some value := found
      rw [present, Option.map_some]
      exact lookup_entries_insert map.entries key (change value)

end BoundedMap

end Foundations
