import RealTime.Proofs.Ring.Queue

/-! # What readers of a region find

A reader finds the queued tasks, with their names cut.  `Region.Shows` says of what kind these are.

* `name_image`      the name that a slot keeps of a task
* `Shows.push`, `Shows.pop`   what operations add to what can be found
* `Shows.contents`  what a listing finds -/

namespace RealTime

/-! ### Names in slots -/

/-- A slot tells how many octets it keeps of a name. -/
theorem Slot.toNat_nameLength (t : Task) :
    (Slot.ofTask t).nameLength.toNat = (Utf8.write (Slot.keptName t.name)).length := by
  have hle : (Utf8.write (Slot.keptName t.name)).length ≤ 24 := Utf8.octets_fit_le ..
  exact UInt8.toNat_ofNat_of_lt' (Nat.lt_of_le_of_lt hle (by decide))

/-- As many octets of the name area are those of what is kept; behind them it is filled with zeros. -/
theorem Slot.take_name (t : Task) :
    (Slot.ofTask t).name.toList.take (Slot.ofTask t).nameLength.toNat =
      Utf8.write (Slot.keptName t.name) := by
  have hle : (Utf8.write (Slot.keptName t.name)).length ≤ 24 := Utf8.octets_fit_le ..
  rw [toNat_nameLength]
  apply List.ext_getElem
  · rw [List.length_take, Vector.length_toList, Nat.min_eq_left hle]
  · intro i hi hi'
    simp [Slot.ofTask, List.getElem?_eq_getElem hi']

/-- A slot keeps of a name what fits. -/
theorem Task.name_image (t : Task) : t.image.name = String.ofList (Slot.keptName t.name) := by
  simp only [Task.image, Slot.toTask, Slot.take_name, Utf8.readLossy_write]

/-- The name of the image of a task is its name, cut at a character boundary. -/
theorem Task.cut_image (t : Task) :
    Utf8.Cut Slot.nameRoom t.name.toList t.image.name.toList := by
  rw [t.name_image, String.toList_ofList]
  exact Utf8.cut_fit ..

/-- A name for which a slot has room is kept as it is. -/
theorem Task.name_image_of_le {t : Task} (h : t.name.utf8ByteSize ≤ Slot.nameRoom) :
    t.image.name = t.name := by
  have hle : (Utf8.write t.name.toList).length ≤ Slot.nameRoom := by
    rwa [Utf8.length_write_toList]
  exact String.toList_injective (t.cut_image.eq_of_octets_le hle)

namespace Region

/-- A region is a queue, and all tasks in it have a property. -/
def Shows (r : Region) (capacity : UInt64) (P : Task → Prop) : Prop :=
  ∃ ts, r.Holds capacity ts ∧ ∀ t ∈ ts, P t

variable {r r' : Region} {capacity : UInt64} {t : Task} {ts : List Task} {P Q : Task → Prop}

theorem Shows.mono (h : r.Shows capacity P) (hPQ : ∀ t, P t → Q t) : r.Shows capacity Q := by
  obtain ⟨ts, hholds, hts⟩ := h
  exact ⟨ts, hholds, fun t ht => hPQ t (hts t ht)⟩

/-- In an empty queue, nothing can be found. -/
theorem Holds.shows (h : r.Holds capacity []) : r.Shows capacity P :=
  ⟨[], h, fun _ ht => nomatch ht⟩

/-- The lock does not count. -/
theorem Shows.of_unlock_eq (h : r.Shows capacity P) (heq : r'.unlock = r.unlock) :
    r'.Shows capacity P := by
  obtain ⟨ts, hholds, hts⟩ := h
  exact ⟨ts, hholds.of_unlock_eq heq, hts⟩

/-! ### Work under the lock -/

/-- After a task has been pushed, its image can be found besides. -/
theorem Shows.push (h : r.Shows capacity P) (ht : P t.image) (hpush : r.push capacity t = .ok r') :
    r'.Shows capacity P := by
  obtain ⟨ts, hholds, hts⟩ := h
  have hholds' := hholds.of_push hpush
  exact ⟨_, hholds', List.forall_mem_append.2 ⟨hts, List.forall_mem_singleton.2 ht⟩⟩

/-- The task that leaves could be found, and nothing else can be found then. -/
theorem Shows.pop (h : r.Shows capacity P) (hpop : r.pop capacity = .ok (t, r')) :
    P t ∧ r'.Shows capacity P := by
  obtain ⟨ts, hholds, hts⟩ := h
  cases ts with
  | nil =>
    rw [hholds.pop_nil] at hpop
    cases hpop
  | cons first rest =>
    obtain ⟨r₁, hpop₁, hholds', -⟩ := hholds.pop
    cases hpop₁.symm.trans hpop
    obtain ⟨hfirst, hrest⟩ := List.forall_mem_cons.1 hts
    exact ⟨hfirst, rest, hholds', hrest⟩

/-- A listing finds nothing else. -/
theorem Shows.contents (h : r.Shows capacity P) (hts : r.contents capacity = .ok ts) :
    ∀ t ∈ ts, P t := by
  obtain ⟨ts', hholds, hall⟩ := h
  obtain rfl : ts' = ts := Except.ok.inj (hholds.contents_eq.symm.trans hts)
  exact hall

end Region

end RealTime
