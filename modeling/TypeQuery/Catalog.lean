/-!
# Catalogs

A catalog is a finite map that lists its entries in the order in which their keys first arrived.
Storing under a known key replaces the value and keeps the place; so the order of the keys tells
when a thing was first mentioned, which is the order in which members and globals are reported.

`find?_insert` says that a catalog is a map; `keys_insert` says what storing does to the order.
-/

namespace TypeQuery

/-- A finite map that remembers the order in which its keys arrived.  It is held with the latest
arrival first, where a new one is put in front of the others. -/
structure Catalog (κ α : Type) where
  recent : List (κ × α)
deriving Repr

namespace Catalog

variable {κ α : Type}

/-- The catalog without entries. -/
def empty : Catalog κ α := ⟨[]⟩

instance : EmptyCollection (Catalog κ α) := ⟨empty⟩

instance : Inhabited (Catalog κ α) := ⟨empty⟩

/-- The number of keys. -/
def size (c : Catalog κ α) : Nat := c.recent.length

/-- There are no entries. -/
def isEmpty (c : Catalog κ α) : Bool := c.recent.isEmpty

/-- The keys with their values, in order of arrival. -/
def entries (c : Catalog κ α) : List (κ × α) := c.recent.reverse

/-- The keys, in order of arrival. -/
def keys (c : Catalog κ α) : List κ := c.entries.map Prod.fst

/-- The values, in the order of their keys. -/
def values (c : Catalog κ α) : List α := c.entries.map Prod.snd

variable [DecidableEq κ]

/-- The value stored under `k` in a list of entries. -/
@[specialize] def findIn (k : κ) : List (κ × α) → Option α
  | [] => none
  | (k', a) :: rest => if k' = k then some a else findIn k rest

/-- The value stored under `k`. -/
@[specialize] def find? (c : Catalog κ α) (k : κ) : Option α := findIn k c.recent

/-- Something is stored under `k`. -/
@[specialize] def contains (c : Catalog κ α) (k : κ) : Bool := (c.find? k).isSome

/-- Stores `a` at the place of `k` in a list of entries, if it has one. -/
@[specialize] def replaceIn (k : κ) (a : α) : List (κ × α) → List (κ × α)
  | [] => []
  | (k', a') :: rest => if k' = k then (k', a) :: rest else (k', a') :: replaceIn k a rest

/-- Stores `a` under `k`: at the place of `k`, or else as the latest arrival. -/
@[specialize] def insert (c : Catalog κ α) (k : κ) (a : α) : Catalog κ α :=
  if c.contains k then ⟨replaceIn k a c.recent⟩ else ⟨(k, a) :: c.recent⟩

/-- Removes what is stored under `k`. -/
def erase (c : Catalog κ α) (k : κ) : Catalog κ α := ⟨c.recent.filter (·.1 ≠ k)⟩

/-! ## Looking up after a change -/

@[simp] theorem find?_empty (k : κ) : (∅ : Catalog κ α).find? k = none := rfl

theorem findIn_replaceIn (k k' : κ) (a : α) (l : List (κ × α)) :
    findIn k' (replaceIn k a l) = if k = k' then (findIn k l).map fun _ => a else findIn k' l := by
  induction l with
  | nil => simp [replaceIn, findIn]
  | cons e rest ih =>
    obtain ⟨j, b⟩ := e
    by_cases hj : j = k
    · subst hj
      by_cases hk : j = k' <;> simp [replaceIn, findIn, hk]
    · by_cases hk : k = k'
      · subst hk
        simp [replaceIn, findIn, hj, ih]
      · simp [replaceIn, findIn, hj, hk, ih]

/-- Storing changes what is found under one key, and under no other. -/
theorem find?_insert (c : Catalog κ α) (k k' : κ) (a : α) :
    (c.insert k a).find? k' = if k = k' then some a else c.find? k' := by
  unfold insert
  split
  next h =>
    obtain ⟨b, hb⟩ := Option.isSome_iff_exists.1 h
    simp only [find?] at hb
    simp [find?, findIn_replaceIn, hb]
  next => simp [find?, findIn]

@[simp] theorem find?_insert_self (c : Catalog κ α) (k : κ) (a : α) :
    (c.insert k a).find? k = some a := by
  simp [find?_insert]

theorem findIn_filter_ne (k k' : κ) (l : List (κ × α)) :
    findIn k' (l.filter (·.1 ≠ k)) = if k = k' then none else findIn k' l := by
  induction l with
  | nil => simp [findIn]
  | cons e rest ih =>
    obtain ⟨j, b⟩ := e
    by_cases hj : j = k
    · subst hj
      by_cases hk : j = k' <;> simp_all [findIn]
    · by_cases hk : k = k'
      · subst hk
        simp_all [findIn]
      · simp_all [findIn]

/-- Removing a key hides it and leaves every other key alone. -/
theorem find?_erase (c : Catalog κ α) (k k' : κ) :
    (c.erase k).find? k' = if k = k' then none else c.find? k' :=
  findIn_filter_ne k k' c.recent

theorem findIn_isSome_iff (k : κ) (l : List (κ × α)) :
    (findIn k l).isSome ↔ k ∈ l.map Prod.fst := by
  induction l with
  | nil => simp [findIn]
  | cons e rest ih =>
    obtain ⟨j, b⟩ := e
    by_cases hj : j = k
    · simp [findIn, hj]
    · simp [findIn, hj, ih, Ne.symm hj]

/-- A key is known exactly if something is found under it. -/
theorem contains_iff_mem_keys (c : Catalog κ α) (k : κ) : c.contains k ↔ k ∈ c.keys := by
  simp [contains, find?, findIn_isSome_iff, keys, entries]

theorem map_fst_replaceIn (k : κ) (a : α) (l : List (κ × α)) :
    (replaceIn k a l).map Prod.fst = l.map Prod.fst := by
  induction l with
  | nil => rfl
  | cons e rest ih =>
    obtain ⟨j, b⟩ := e
    by_cases hj : j = k <;> simp [replaceIn, hj, ih]

/-- A known key keeps its place; a new key goes to the end. -/
theorem keys_insert (c : Catalog κ α) (k : κ) (a : α) :
    (c.insert k a).keys = if k ∈ c.keys then c.keys else c.keys ++ [k] := by
  unfold insert
  by_cases h : c.contains k = true
  · rw [if_pos h, if_pos ((contains_iff_mem_keys c k).1 h)]
    simp [keys, entries, map_fst_replaceIn]
  · rw [if_neg h, if_neg fun hk => h ((contains_iff_mem_keys c k).2 hk)]
    simp [keys, entries]

end Catalog

end TypeQuery
