/-! # Finite maps in increasing order of key

`OrderedMap κ α` lists its entries with distinct keys in increasing order, so that walking
over a map always visits the keys in the same order.  The order is carried as a proof field.

The view of a map is `get?`:

* `get?_insert`  `(m.insert k v).get? j = if j = k then some v else m.get? j`
* `get?_erase`   `(m.erase k).get? j = if j = k then none else m.get? j`
* `get?_modify`  `(m.modify k f).get? j = if j = k then (m.get? j).map f else m.get? j`
* `keys_modify`  changing a value moves no key -/

namespace RealTime

/-- A finite map, listed in increasing order of key. -/
structure OrderedMap (κ α : Type) [LT κ] where
  entries : List (κ × α)
  ordered : entries.Pairwise (fun a b => a.1 < b.1)

namespace OrderedMap

variable {κ α : Type} [LT κ]

/-- The map without entries. -/
def empty : OrderedMap κ α := ⟨[], .nil⟩

instance : Inhabited (OrderedMap κ α) := ⟨empty⟩

/-- The keys, in increasing order. -/
def keys (m : OrderedMap κ α) : List κ := m.entries.map (·.1)

/-- The values, in increasing order of their keys. -/
def values (m : OrderedMap κ α) : List α := m.entries.map (·.2)

/-- Number of entries. -/
def size (m : OrderedMap κ α) : Nat := m.entries.length

/-- Whether there is no entry. -/
def isEmpty (m : OrderedMap κ α) : Bool := m.entries.isEmpty

/-- The entry with the largest key. -/
def last? (m : OrderedMap κ α) : Option (κ × α) := m.entries.getLast?

/-- The entries that pass a test. -/
def filter (p : κ → α → Bool) (m : OrderedMap κ α) : OrderedMap κ α :=
  ⟨m.entries.filter (fun e => p e.1 e.2), m.ordered.filter _⟩

/-- Change every value, keeping its key. -/
def mapValues {β : Type} (f : κ → α → β) (m : OrderedMap κ α) : OrderedMap κ β :=
  ⟨m.entries.map (fun e => (e.1, f e.1 e.2)), List.pairwise_map.2 m.ordered⟩

variable [DecidableEq κ]

/-- The value stored under a key. -/
def get? (m : OrderedMap κ α) (k : κ) : Option α :=
  (m.entries.find? (fun e => decide (e.1 = k))).map (·.2)

/-- Whether a key is present. -/
def contains (m : OrderedMap κ α) (k : κ) : Bool := (m.get? k).isSome

/-- Change the value stored under a key; nothing happens if the key is absent. -/
def modify (m : OrderedMap κ α) (k : κ) (f : α → α) : OrderedMap κ α :=
  m.mapValues (fun j v => if j = k then f v else v)

/-- Remove a key. -/
def erase (m : OrderedMap κ α) (k : κ) : OrderedMap κ α := m.filter (fun j _ => decide (j ≠ k))

@[simp] theorem get?_empty (k : κ) : (empty : OrderedMap κ α).get? k = none := rfl

theorem keys_modify (m : OrderedMap κ α) (k : κ) (f : α → α) : (m.modify k f).keys = m.keys := by
  simp [keys, modify, mapValues]

theorem get?_mapValues {β : Type} (m : OrderedMap κ α) (f : κ → α → β) (k : κ) :
    (m.mapValues f).get? k = (m.get? k).map (f k) := by
  obtain ⟨l, hl⟩ := m
  simp only [get?, mapValues]
  clear hl
  induction l with
  | nil => rfl
  | cons e l ih => by_cases h : e.1 = k <;> simp_all

theorem get?_modify (m : OrderedMap κ α) (k j : κ) (f : α → α) :
    (m.modify k f).get? j = if j = k then (m.get? j).map f else m.get? j := by
  rw [modify, get?_mapValues]
  cases m.get? j <;> split <;> simp_all

theorem get?_erase (m : OrderedMap κ α) (k j : κ) :
    (m.erase k).get? j = if j = k then none else m.get? j := by
  obtain ⟨l, hl⟩ := m
  simp only [get?, erase, filter]
  clear hl
  induction l with
  | nil => simp
  | cons e l ih =>
    by_cases h : e.1 = k <;> by_cases h' : e.1 = j <;> by_cases h'' : j = k <;> simp_all

theorem mem_entries_of_get? {m : OrderedMap κ α} {k : κ} {v : α} (h : m.get? k = some v) :
    (k, v) ∈ m.entries := by
  obtain ⟨e, he, rfl⟩ := Option.map_eq_some_iff.1 h
  have hk : e.1 = k := by simpa using List.find?_some he
  exact hk ▸ List.mem_of_find?_eq_some he

theorem contains_iff_mem_keys {m : OrderedMap κ α} {k : κ} : m.contains k ↔ k ∈ m.keys := by
  simp [contains, get?, keys]

variable [DecidableLT κ]

/-- Put an entry at its place in an increasing list, in front of or instead of another one. -/
def insertEntry (k : κ) (v : α) : List (κ × α) → List (κ × α)
  | [] => [(k, v)]
  | (j, w) :: l =>
    if k = j then (k, v) :: l
    else if k < j then (k, v) :: (j, w) :: l
    else (j, w) :: insertEntry k v l

theorem mem_insertEntry {k : κ} {v : α} {e : κ × α} {l : List (κ × α)}
    (h : e ∈ insertEntry k v l) : e = (k, v) ∨ e ∈ l := by
  induction l with
  | nil => simpa [insertEntry] using h
  | cons d l ih =>
    obtain ⟨j, w⟩ := d
    rw [insertEntry] at h
    split at h <;> (try split at h) <;> grind

variable [LE κ] [Std.IsLinearOrder κ] [Std.LawfulOrderLT κ]

theorem pairwise_insertEntry {k : κ} {v : α} {l : List (κ × α)}
    (h : l.Pairwise (fun a b => a.1 < b.1)) :
    (insertEntry k v l).Pairwise (fun a b => a.1 < b.1) := by
  induction l with
  | nil => simp [insertEntry]
  | cons d l ih =>
    obtain ⟨j, w⟩ := d
    obtain ⟨hj, hl⟩ := List.pairwise_cons.1 h
    rw [insertEntry]
    split
    case isTrue hkj => exact List.pairwise_cons.2 ⟨fun e he => hkj ▸ hj e he, hl⟩
    case isFalse hkj =>
      split
      case isTrue hlt =>
        refine List.pairwise_cons.2 ⟨fun e he => ?_, h⟩
        rcases List.mem_cons.1 he with rfl | he
        · exact hlt
        · exact Std.lt_trans hlt (hj e he)
      case isFalse hlt =>
        refine List.pairwise_cons.2 ⟨fun e he => ?_, ih hl⟩
        rcases mem_insertEntry he with rfl | he
        · rcases Std.lt_trichotomy k j with h | h | h
          · exact absurd h hlt
          · exact absurd h hkj
          · exact h
        · exact hj e he

/-- Store a value under a key, replacing what the key held. -/
def insert (m : OrderedMap κ α) (k : κ) (v : α) : OrderedMap κ α :=
  ⟨insertEntry k v m.entries, pairwise_insertEntry m.ordered⟩

/-- Build a map from a list of entries; of two entries with one key the later one stays. -/
def ofList (l : List (κ × α)) : OrderedMap κ α := l.foldl (fun m e => m.insert e.1 e.2) empty

theorem get?_insert (m : OrderedMap κ α) (k j : κ) (v : α) :
    (m.insert k v).get? j = if j = k then some v else m.get? j := by
  obtain ⟨l, hl⟩ := m
  simp only [get?, insert]
  clear hl
  induction l with
  | nil => by_cases h : k = j <;> simp [insertEntry, h, eq_comm]
  | cons e l ih =>
    obtain ⟨i, w⟩ := e
    rw [insertEntry]
    split
    case isTrue hki => subst hki; by_cases h : k = j <;> simp [h, eq_comm]
    case isFalse hki =>
      split
      case isTrue => by_cases h : k = j <;> simp [h, eq_comm]
      case isFalse =>
        by_cases h : i = j
        · subst h; simp [Ne.symm hki]
        · simpa [h] using ih

end OrderedMap

end RealTime
