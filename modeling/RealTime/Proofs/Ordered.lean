import RealTime.Ordered.Map
import RealTime.Ordered.Set

/-! # Members and keys

What the proofs about maps and sets need beyond their views: a present key has an entry and
the other way round, the last key of a map is its largest, and the size of a small set tells
its members.

* `contains_iff`         a key is present if a value is stored under it
* `key_le_last`          no key exceeds the last one
* `get?_ofList_iff`      a list without repeated keys and the map made of it
* `insert_get?`          storing what is stored already changes nothing
* `two_le_size`          two different members make a size of at least two
* `elems_eq_singleton`   a set of one has no other member -/

namespace RealTime

namespace OrderedMap

variable {κ α : Type} [LT κ] [DecidableEq κ]

/-- A key is present exactly if a value is stored under it. -/
theorem contains_iff {m : OrderedMap κ α} {k : κ} : m.contains k = true ↔ ∃ v, m.get? k = some v := by
  rw [contains, Option.isSome_iff_exists]

/-- A key without a value is not present. -/
theorem contains_eq_false_iff {m : OrderedMap κ α} {k : κ} :
    m.contains k = false ↔ m.get? k = none := by
  rw [contains, Option.isSome_eq_false_iff, Option.isNone_iff_eq_none]

/-- Whoever has an entry has a key. -/
theorem contains_of_mem_entries {m : OrderedMap κ α} {e : κ × α} (h : e ∈ m.entries) :
    m.contains e.1 = true :=
  contains_iff_mem_keys.2 (List.mem_map_of_mem h)

/-- A value has been changed, or is as it was. -/
theorem get?_modify_eq_some_iff {m : OrderedMap κ α} {k j : κ} {f : α → α} {v w : α}
    (h : m.get? k = some v) :
    (m.modify k f).get? j = some w ↔ j = k ∧ w = f v ∨ j ≠ k ∧ m.get? j = some w := by
  rw [get?_modify]
  split
  · rename_i hjk
    simp [hjk, h, eq_comm]
  · rename_i hjk
    simp [hjk]

omit [DecidableEq κ] in
/-- The last entry has the largest key. -/
theorem key_le_last {m : OrderedMap Nat α} {last : Nat × α} (h : m.last? = some last)
    {e : Nat × α} (he : e ∈ m.entries) : e.1 ≤ last.1 := by
  obtain ⟨l, hl⟩ := m
  obtain ⟨init, rfl⟩ := List.getLast?_eq_some_iff.1 h
  have hlt := (List.pairwise_append.1 hl).2.2
  rcases List.mem_append.1 he with he | he
  · exact Nat.le_of_lt (hlt e he last (List.mem_singleton_self last))
  · have heq := List.mem_singleton.1 he
    exact Nat.le_of_eq (congrArg Prod.fst heq)

omit [DecidableEq κ] in
/-- A map of at most one entry is empty or has a single one. -/
theorem entries_of_size_le_one {m : OrderedMap κ α} (h : m.size ≤ 1) :
    m.entries = [] ∨ ∃ e, m.entries = [e] := by
  obtain ⟨l, hl⟩ := m
  match l with
  | [] => exact .inl rfl
  | [e] => exact .inr ⟨e, rfl⟩
  | _ :: _ :: _ => simp [size] at h

/-- The only entry is what its key holds. -/
theorem get?_of_entries_eq_singleton {m : OrderedMap κ α} {e : κ × α} (h : m.entries = [e]) :
    m.get? e.1 = some e.2 := by
  simp [get?, h]

/-- Every entry is what its key holds. -/
theorem get?_of_mem_entries [LE κ] [Std.LawfulOrderLT κ] {m : OrderedMap κ α} {k : κ} {v : α}
    (h : (k, v) ∈ m.entries) : m.get? k = some v := by
  obtain ⟨l, hl⟩ := m
  simp only [get?] at *
  induction l with
  | nil => cases h
  | cons e l ih =>
    obtain ⟨hlt, hl⟩ := List.pairwise_cons.1 hl
    rcases List.mem_cons.1 h with rfl | hmem
    · simp
    · -- an earlier entry has a smaller key
      have hne : e.1 ≠ k := fun heq => Std.lt_irrefl (heq ▸ hlt (k, v) hmem)
      rw [List.find?_cons_of_neg (by simpa using hne)]
      exact ih hl hmem

omit [DecidableEq κ] in
/-- No key is listed twice. -/
theorem nodup_keys [LE κ] [Std.LawfulOrderLT κ] (m : OrderedMap κ α) : m.keys.Nodup := by
  rw [keys, List.Nodup, List.pairwise_map]
  refine m.ordered.imp ?_
  intro e e' hlt heq
  exact Std.lt_irrefl (heq ▸ hlt)

/-- A key that is left by a filter holds a value that passes. -/
theorem of_mem_keys_filter [LE κ] [Std.LawfulOrderLT κ] {m : OrderedMap κ α} {p : κ → α → Bool}
    {k : κ} {v : α} (h : k ∈ (m.filter p).keys) (hk : m.get? k = some v) : p k v = true := by
  obtain ⟨⟨k, w⟩, he, rfl⟩ := List.mem_map.1 h
  obtain ⟨he, hp⟩ := List.mem_filter.1 he
  obtain rfl := Option.some.inj ((get?_of_mem_entries he).symm.trans hk)
  exact hp

/-- A map of size zero holds nothing. -/
theorem get?_of_size_eq_zero {m : OrderedMap κ α} (h : m.size = 0) (k : κ) : m.get? k = none := by
  have hnil : m.entries = [] := List.length_eq_zero_iff.1 h
  simp [get?, hnil]

/-- Nothing is left of a map of one entry when that is removed. -/
theorem size_erase_eq_zero {m : OrderedMap κ α} {k : κ} {v : α} (h : m.size ≤ 1)
    (hk : m.get? k = some v) : (m.erase k).size = 0 := by
  have hmem := mem_entries_of_get? hk
  rcases entries_of_size_le_one h with hnil | ⟨e, he⟩
  · rw [hnil] at hmem
    cases hmem
  · rw [he, List.mem_singleton] at hmem
    simp [size, erase, filter, he, ← hmem]

variable [DecidableLT κ] [LE κ] [Std.IsLinearOrder κ] [Std.LawfulOrderLT κ]

/-- An empty map grows to one entry. -/
theorem size_insert_eq_one {m : OrderedMap κ α} (h : m.size = 0) (k : κ) (v : α) :
    (m.insert k v).size = 1 := by
  have hnil : m.entries = [] := List.length_eq_zero_iff.1 h
  simp [size, insert, hnil, insertEntry]

private theorem insertEntry_of_mem {k : κ} {v : α} {l : List (κ × α)}
    (hl : l.Pairwise (fun a b => a.1 < b.1)) (h : (k, v) ∈ l) : insertEntry k v l = l := by
  induction l with
  | nil => cases h
  | cons e l ih =>
    obtain ⟨j, w⟩ := e
    obtain ⟨hj, hl⟩ := List.pairwise_cons.1 hl
    rw [insertEntry]
    rcases List.mem_cons.1 h with heq | hmem
    · cases heq
      rw [if_pos rfl]
    · -- the entry is farther right, so its key is larger than `j`
      have hlt : j < k := hj (k, v) hmem
      have hne : k ≠ j := fun heq => Std.lt_irrefl (heq ▸ hlt)
      have hnlt : ¬ k < j := fun hkj => Std.lt_irrefl (Std.lt_trans hlt hkj)
      rw [if_neg hne, if_neg hnlt, ih hl hmem]

private theorem mem_of_get?_foldl_insert {l : List (κ × α)} {m : OrderedMap κ α} {k : κ} {v : α}
    (h : (l.foldl (fun m e => m.insert e.1 e.2) m).get? k = some v) :
    (k, v) ∈ l ∨ m.get? k = some v := by
  induction l generalizing m with
  | nil => exact .inr h
  | cons e l ih =>
    rcases ih h with hmem | hget
    · exact .inl (List.mem_cons_of_mem e hmem)
    · rw [get?_insert] at hget
      split at hget
      · rename_i hk
        cases hget
        exact .inl (hk ▸ List.mem_cons_self)
      · exact .inr hget

/-- A map made of a list holds entries of that list only. -/
theorem mem_of_get?_ofList {l : List (κ × α)} {k : κ} {v : α} (h : (ofList l).get? k = some v) :
    (k, v) ∈ l := by
  rcases mem_of_get?_foldl_insert h with hmem | hget
  · exact hmem
  · cases hget

private theorem get?_foldl_insert_of_not_mem {l : List (κ × α)} {m : OrderedMap κ α} {k : κ}
    (h : k ∉ l.map (·.1)) : (l.foldl (fun m e => m.insert e.1 e.2) m).get? k = m.get? k := by
  induction l generalizing m with
  | nil => rfl
  | cons e l ih =>
    obtain ⟨hne, hl⟩ := not_or.1 (mt List.mem_cons.2 h)
    rw [List.foldl_cons, ih hl, get?_insert, if_neg hne]

private theorem get?_foldl_insert_of_mem {l : List (κ × α)} {m : OrderedMap κ α} {k : κ} {v : α}
    (hl : (l.map (·.1)).Nodup) (h : (k, v) ∈ l) :
    (l.foldl (fun m e => m.insert e.1 e.2) m).get? k = some v := by
  induction l generalizing m with
  | nil => cases h
  | cons e l ih =>
    obtain ⟨hne, hl⟩ := List.nodup_cons.1 hl
    rcases List.mem_cons.1 h with rfl | hmem
    · -- nothing farther right replaces the entry
      rw [List.foldl_cons, get?_foldl_insert_of_not_mem hne, get?_insert, if_pos rfl]
    · exact ih hl hmem

/-- A map made of a list without repeated keys holds exactly the entries of that list. -/
theorem get?_ofList_iff {l : List (κ × α)} {k : κ} {v : α} (hl : (l.map (·.1)).Nodup) :
    (ofList l).get? k = some v ↔ (k, v) ∈ l :=
  ⟨mem_of_get?_ofList, get?_foldl_insert_of_mem hl⟩

/-- Storing a value where it is stored already changes nothing. -/
theorem insert_get? {m : OrderedMap κ α} {k : κ} {v : α} (h : m.get? k = some v) :
    m.insert k v = m := by
  have hmem := mem_entries_of_get? h
  obtain ⟨l, hl⟩ := m
  simp only [insert, insertEntry_of_mem hl hmem]

end OrderedMap

namespace OrderedSet

variable {κ : Type} [LT κ]

/-- Two different members make a size of at least two. -/
theorem two_le_size {s : OrderedSet κ} {a b : κ} (ha : a ∈ s) (hb : b ∈ s) (hab : a ≠ b) :
    2 ≤ s.size := by
  obtain ⟨l, hl⟩ := s
  match l with
  | [] => cases ha
  | [c] =>
    have hac : a = c := List.mem_singleton.1 ha
    have hbc : b = c := List.mem_singleton.1 hb
    exact absurd (hac.trans hbc.symm) hab
  | _ :: _ :: _ => exact Nat.le_add_left 2 _

/-- A set of at most one member that has a member has no other. -/
theorem elems_eq_singleton {s : OrderedSet κ} {a : κ} (h : s.size ≤ 1) (ha : a ∈ s) :
    s.elems = [a] := by
  obtain ⟨l, hl⟩ := s
  match l with
  | [] => cases ha
  | [c] => rw [List.mem_singleton.1 ha]
  | _ :: _ :: _ => simp [size] at h

/-- Removing what is not there changes nothing. -/
theorem erase_of_not_mem [DecidableEq κ] {s : OrderedSet κ} {a : κ} (h : a ∉ s) : s.erase a = s := by
  obtain ⟨l, hl⟩ := s
  have hall : ∀ b ∈ l, decide (b ≠ a) = true := fun b hb => by
    rw [decide_eq_true_eq]
    rintro rfl
    exact h hb
  simp only [erase, List.filter_eq_self.2 hall]

/-- No member is listed twice. -/
theorem nodup_elems [LE κ] [Std.LawfulOrderLT κ] (s : OrderedSet κ) : s.elems.Nodup := by
  refine s.ordered.imp ?_
  intro a b hlt heq
  exact Std.lt_irrefl (heq ▸ hlt)

/-- A set of some size has a member. -/
theorem exists_mem_of_size_pos {s : OrderedSet κ} (h : 0 < s.size) : ∃ a, a ∈ s :=
  List.exists_mem_of_length_pos h

end OrderedSet

end RealTime
