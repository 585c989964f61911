import RealTime.Proofs.Ring.Untrusted
import RealTime.Ring.Host

/-! # The bytes behind a queue

The slots of a queue follow each other in a region behind its header.  A region that is created has
the bytes of its slots and no more, and one that is attached to has at least as many, whoever has
written its header.  A region that has the bytes, the mark and the capacity can always be attached
to.  A queue that is too long for a machine word to tell its bytes is not created at all.

* `confined_held`           work under a held lock touches the slots of the queue only
* `openFile_of_createFile`  a file that has been created can be opened
* `create_mapped`, `attach_eq_iff`  what has happened when a queue has been mapped
* `slots_mapped`            what creating and attaching say about the bytes of a region -/

namespace RealTime

/-! ### Slots in a region -/

namespace Region

variable {r r' : Region} {capacity : UInt64} {t : Task} {i n : Nat}

/-- All bytes of a slot lie in the region. -/
def Contains (r : Region) (i : Nat) : Prop := extent (i + 1) ≤ r.size.toNat

instance : Decidable (r.Contains i) := inferInstanceAs (Decidable (_ ≤ _))

/-- The slots of a queue lie in every region that is long enough for all of them. -/
theorem contains_of_lt (h : extent n ≤ r.size.toNat) (hi : i < n) : r.Contains i := by
  have hslots : (i + 1) * slotSize ≤ n * slotSize := Nat.mul_le_mul_right _ hi
  exact Nat.le_trans (Nat.add_le_add_left hslots _) h

/-! ### Work under a held lock -/

/-- Do a piece of work while the lock is held.  Work that fails leaves the region as it was. -/
def held {α : Type} (work : Region → Except RingError (α × Region)) (r : Region) :
    Except RingError α × Region :=
  match work r with
  | .ok (a, done) => (.ok a, done)
  | .error e => (.error e, r)

/-- What can be done under a held lock touches the slots of the queue only, whatever the header
says. -/
structure Reaches (capacity : UInt64) (r : Region) : Prop where
  push : ∀ t, Confined capacity r (held fun r => (r.push capacity t).map ((), ·))
  pop : Confined capacity r (held (·.pop capacity))
  contents : Confined capacity r (held fun r => (r.contents capacity).map (·, r))

theorem confined_held (hcap : capacity ≠ 0) (r : Region) : Reaches capacity r where
  push := fun t => {
    reads := fun {r'} h => by
      rcases h.push t with ⟨s, s', hpush, hpush', halike⟩ | ⟨hpush, hpush'⟩
      · simp only [held, hpush, hpush', Except.map]
        exact ⟨trivial, halike⟩
      · simp only [held, hpush, hpush', Except.map]
        exact ⟨trivial, h⟩
    writes := fun {i} hi => by
      cases hpush : r.push capacity t with
      | error e =>
        simp only [held, hpush]
        rfl
      | ok s =>
        simp only [held, hpush]
        exact slot_push_of_le hcap hpush hi }
  pop := {
    reads := fun {r'} h => by
      rcases h.pop hcap with ⟨t, s, s', hpop, hpop', halike⟩ | ⟨hpop, hpop'⟩
      · simp only [held, hpop, hpop']
        exact ⟨trivial, halike⟩
      · simp only [held, hpop, hpop']
        exact ⟨trivial, h⟩
    writes := fun {i} _ => by
      cases hpop : r.pop capacity with
      | error e => simp only [held, hpop]
      | ok done =>
        simp only [held, hpop]
        exact slot_pop hpop i }
  contents := {
    reads := fun {r'} h => by
      simp only [held, h.contents hcap]
      cases r.contents capacity with
      | error e => exact ⟨rfl, h⟩
      | ok ts => exact ⟨rfl, h⟩
    writes := fun {i} _ => by
      simp only [held]
      cases r.contents capacity <;> rfl }

end Region

/-! ### Names of files -/

namespace FileTree

variable {t t' : FileTree} {path : String} {here there names : List String} {fresh file : Nat}

/-- Where a walk finds nothing, there is nothing. -/
theorem entry?_of_walk (h : t.walk here names = .ok (there, none)) : t.entry? there = none := by
  fun_induction walk t here names with
  | case1 => cases h
  | case2 here name next =>
    obtain ⟨rfl, hfound⟩ := Prod.mk.inj (Except.ok.inj h)
    split at hfound
    · cases hfound
    · exact hfound
  | case3 _ _ _ _ ih => exact ih h
  | case4 _ _ _ _ _ _ _ ih => exact ih h
  | case5 | case6 => cases h

/-- Where a walk finds nothing, it finds what is put there. -/
theorem walk_cons {e : FileEntry} (h : t.walk here names = .ok (there, none)) :
    walk ⟨(there, e) :: t.entries⟩ here names = .ok (there, some e) := by
  have hnone := entry?_of_walk h
  fun_induction walk t here names with
  | case1 => cases h
  | case2 here name next =>
    obtain ⟨rfl, hfound⟩ := Prod.mk.inj (Except.ok.inj h)
    split at hfound
    · cases hfound
    · rename_i hname
      simp only [walk, if_neg hname, entry?, next, List.lookup_cons_self]
  | case3 here rest hrest next ih =>
    rw [walk, if_pos rfl]
    · exact ih h
    · exact hrest
  | case4 here name rest hrest next hname hdirectory ih =>
    -- a directory on the way is not the place where nothing was
    have hne : (next == there) = false := by
      rw [beq_eq_false_iff_ne]
      rintro rfl
      rw [hnone] at hdirectory
      cases hdirectory
    have hstill : entry? ⟨(there, e) :: t.entries⟩ next = some .directory := by
      rw [ entry?, List.lookup_cons, hne]
      exact hdirectory
    rw [walk, if_neg hname, hstill]
    · exact ih h
    · exact hrest
  | case5 | case6 => cases h

/-- A file that has been made or opened for writing can be opened again. -/
theorem openFile_of_createFile (h : t.createFile path fresh = .ok (file, t')) :
    t'.openFile path = .ok file := by
  simp only [createFile] at h
  split at h
  · rename_i hlocate
    cases h
    rw [openFile, hlocate]
  · cases h
  · rename_i hlocate
    cases h
    rw [openFile, locate, walk_cons hlocate]
  · cases h

end FileTree

/-! ### Mappings -/

namespace Host

variable {h h' : Host} {name path : String} {capacity : UInt64} {handle : RingHandle} {file : Nat}
  {m : Mapping}

/-- Between two states locks have been freed, and of files at most names have been removed. -/
structure Frees (h h' : Host) : Prop where
  mappings_eq : h'.mappings = h.mappings
  unlock_eq : ∀ file, (h'.region file).unlock = (h.region file).unlock

theorem frees_release (h : Host) (name : String) (g : Guard) : h.Frees (h.release name g) where
  mappings_eq := rfl
  unlock_eq := fun file => by
    simp only [release, setRegion, region, OrderedMap.get?_insert]
    split
    · rename_i heq
      rw [heq]
      rfl
    · rfl

theorem frees_unmap (h : Host) (name : String) (m : Mapping) : h.Frees (h.unmap name m) := by
  have hlocks : h.Frees (h.guards.entries.foldl
      (fun h e => if e.2.mapping = name then h.release e.1 e.2 else h) h) := by
    refine List.foldlRecOn (motive := h.Frees) _ _ ⟨rfl, fun _ => rfl⟩ ?_
    intro h' hfrees e _
    split
    · have hrelease := frees_release h' e.1 e.2
      exact ⟨hrelease.mappings_eq.trans hfrees.mappings_eq,
        fun file => (hrelease.unlock_eq file).trans (hfrees.unlock_eq file)⟩
    · exact hfrees
  simp only [unmap]
  split
  · exact ⟨hlocks.mappings_eq, hlocks.unlock_eq⟩
  · exact hlocks

/-- A name that is bound stands for the new mapping, and no region changes but for its lock. -/
theorem frees_bind (h : Host) (name : String) (m : Mapping) :
    Frees { h with mappings := h.mappings.insert name m } (h.bind name m) := by
  simp only [bind]
  split
  · exact frees_unmap _ _ _
  · exact ⟨rfl, fun _ => rfl⟩

/-- A name stands for a mapping of an initialised queue. -/
structure Maps (h : Host) (name : String) (m : Mapping) : Prop where
  mapped : h.mappings.get? name = some m
  initialised : (h.region m.file).Initialised m.handle.capacity

/-- A mapping of an initialised region shows it, with its length. -/
theorem maps_bind (hregion : (h.region m.file).Initialised m.handle.capacity) (name : String) :
    (h.bind name m).Maps name m ∧ ((h.bind name m).region m.file).size = (h.region m.file).size := by
  have hfrees := frees_bind h name m
  have heq : ((h.bind name m).region m.file).unlock = (h.region m.file).unlock :=
    hfrees.unlock_eq m.file
  refine ⟨⟨?_, hregion.of_unlock_eq heq⟩, congrArg (·.size) heq⟩
  rw [hfrees.mappings_eq, OrderedMap.get?_insert, if_pos rfl]

/-- What has happened when a queue has been created. -/
theorem create_mapped (hcreate : h.create name path capacity = (.mapped handle, h')) :
    handle = ⟨path, capacity⟩ ∧ capacity ≠ 0 ∧ Region.Addressable capacity ∧
      ∃ (file : Nat) (h₀ : Host), h₀.mappings = h.mappings ∧ h₀.tree.openFile path = .ok file ∧
        h₀.region file = .fresh capacity ∧ h' = h₀.bind name ⟨file, handle, true⟩ := by
  simp only [create] at hcreate
  split at hcreate
  · cases hcreate
  · rename_i hpos
    cases hlength : Region.lengthFor capacity with
    | error e =>
      rw [hlength] at hcreate
      cases hcreate
    | ok length =>
      have haddressable := Region.addressable_of_lengthFor hlength
      cases hrewind : h.rewind path with
      | error fault =>
        simp only [hlength, hrewind] at hcreate
        cases hcreate
      | ok made =>
        obtain ⟨file, h₁⟩ := made
        simp only [hlength, hrewind, Region.initialise_zeros hlength] at hcreate
        split at hcreate
        · cases hcreate
        · obtain ⟨hhandle, hhost⟩ := Prod.mk.inj hcreate
          cases hhandle
          simp only [rewind] at hrewind
          split at hrewind
          · rename_i hfile
            cases hrewind
            refine ⟨rfl, hpos, haddressable, file, _, ?_, ?_, ?_, hhost.symm⟩
            · rfl
            · exact FileTree.openFile_of_createFile hfile
            · simp only [region, setRegion, OrderedMap.get?_insert, if_pos, Option.getD_some]
          · cases hrewind

/-- The length of a queue is computed before its file is touched. -/
theorem create_overflow (h : Host) (name path : String) (hlong : ¬ Region.Addressable capacity) :
    h.create name path capacity = (.failed .overflow, h) := by
  have hne : capacity ≠ 0 := by
    rintro rfl
    exact hlong (by decide)
  have hlength : Region.lengthFor capacity = .error .overflow :=
    Region.lengthFor_eq_error_iff.2 ⟨hlong, rfl⟩
  simp only [create, if_neg hne, hlength]

/-- A queue is attached to exactly if the check accepts the region of a file. -/
theorem attach_eq_iff : h.attach name path capacity = (.mapped handle, h') ↔
    ∃ file, h.tree.openFile path = .ok file ∧ (h.region file).check path capacity = .ok () ∧
      handle = ⟨path, capacity⟩ ∧ h' = h.bind name ⟨file, handle, false⟩ := by
  constructor
  · intro hattach
    simp only [attach] at hattach
    split at hattach
    · cases hattach
    · rename_i file hfile
      split at hattach
      · cases hattach
      · rename_i hcheck
        obtain ⟨hhandle, hhost⟩ := Prod.mk.inj hattach
        cases hhandle
        exact ⟨file, hfile, hcheck, rfl, hhost.symm⟩
  · rintro ⟨file, hfile, hcheck, rfl, rfl⟩
    simp only [attach, hfile, hcheck]

theorem attach_of_check (hfile : h.tree.openFile path = .ok file)
    (hcheck : (h.region file).check path capacity = .ok ()) (name : String) :
    (h.attach name path capacity).1 = .mapped ⟨path, capacity⟩ :=
  congrArg Prod.fst (attach_eq_iff.2 ⟨file, hfile, hcheck, rfl, rfl⟩)

/-- A queue that has been created has the bytes of its slots. -/
theorem maps_create (hcreate : h.create name path capacity = (.mapped handle, h')) :
    handle = ⟨path, capacity⟩ ∧ ∃ file, h'.Maps name ⟨file, handle, true⟩ ∧
      (h'.region file).size.toNat = Region.extent capacity.toNat := by
  obtain ⟨rfl, hpos, haddressable, file, h₀, -, -, hfresh, rfl⟩ := create_mapped hcreate
  have hregion : (h₀.region file).Initialised capacity := hfresh ▸ Region.initialised_fresh hpos
  obtain ⟨hmaps, hsize⟩ := maps_bind (m := ⟨file, ⟨path, capacity⟩, true⟩) hregion name
  refine ⟨rfl, file, hmaps, ?_⟩
  rw [hsize, hfresh, Region.toNat_size_fresh haddressable]

/-- A queue that has been attached to has at least as many. -/
theorem maps_attach (hattach : h.attach name path capacity = (.mapped handle, h')) :
    handle = ⟨path, capacity⟩ ∧ ∃ file, h'.Maps name ⟨file, handle, false⟩ ∧
      Region.extent capacity.toNat ≤ (h'.region file).size.toNat := by
  obtain ⟨file, -, hcheck, rfl, rfl⟩ := attach_eq_iff.1 hattach
  obtain ⟨hregion, hlength⟩ := (Region.check_eq_ok_iff path).1 hcheck
  obtain ⟨hmaps, hsize⟩ := maps_bind (m := ⟨file, ⟨path, capacity⟩, false⟩) hregion name
  exact ⟨rfl, file, hmaps, hsize ▸ hlength⟩

/-- A queue that has been created under a new name can be attached to. -/
theorem attach_create (hcreate : h.create name path capacity = (.mapped handle, h'))
    (hnew : h.mappings.get? name = none) (other : String) :
    (h'.attach other path capacity).1 = .mapped handle := by
  obtain ⟨rfl, hpos, haddressable, file, h₀, hmappings, hfile, hfresh, rfl⟩ :=
    create_mapped hcreate
  -- a new name takes no other mapping's place, so nothing is unmapped
  have hbind : h₀.bind name ⟨file, ⟨path, capacity⟩, true⟩ =
      { h₀ with mappings := h₀.mappings.insert name ⟨file, ⟨path, capacity⟩, true⟩ } := by
    simp only [bind, hmappings, hnew]
  generalize h₀.bind name ⟨file, ⟨path, capacity⟩, true⟩ = h' at hbind
  subst hbind
  have hcheck : (h₀.region file).check path capacity = .ok () := by
    rw [hfresh, Region.check_eq_ok_iff, Region.toNat_size_fresh haddressable]
    exact ⟨Region.initialised_fresh hpos, Nat.le_refl _⟩
  apply attach_of_check
  · exact hfile
  · exact hcheck

/-- What creating and attaching to queues of some capacity say about the bytes behind them. -/
structure Backing (capacity : UInt64) : Prop where
  /-- A queue that has been created has the bytes of its slots and no more. -/
  created : ∀ {h h' : Host} {name path : String} {handle : RingHandle},
    h.create name path capacity = (.mapped handle, h') →
      handle = ⟨path, capacity⟩ ∧ ∃ file, h'.Maps name ⟨file, handle, true⟩ ∧
        (h'.region file).size.toNat = Region.extent capacity.toNat
  /-- One that has been attached to has at least as many. -/
  attached : ∀ {h h' : Host} {name path : String} {handle : RingHandle},
    h.attach name path capacity = (.mapped handle, h') →
      handle = ⟨path, capacity⟩ ∧ ∃ file, h'.Maps name ⟨file, handle, false⟩ ∧
        Region.extent capacity.toNat ≤ (h'.region file).size.toNat
  /-- If no machine word tells how many bytes these are, nothing is created and no file is
  touched. -/
  refused : ¬ Region.Addressable capacity → ∀ (h : Host) (name path : String),
    h.create name path capacity = (.failed .overflow, h)
  /-- Every file that has the bytes and the header of a queue can be attached to. -/
  attaches : ∀ {h : Host} {path : String} {r : Region}, h.regionAt? path = some r →
    r.Initialised capacity → Region.extent capacity.toNat ≤ r.size.toNat →
      ∀ name, (h.attach name path capacity).1 = .mapped ⟨path, capacity⟩
  /-- So can a queue that has just been created under a new name. -/
  attaches_created : ∀ {h h' : Host} {name path : String} {handle : RingHandle},
    h.create name path capacity = (.mapped handle, h') → h.mappings.get? name = none →
      ∀ other, (h'.attach other path capacity).1 = .mapped handle
  /-- Where there are the bytes of all slots, whatever is done under the lock touches only slots that
  lie in the region. -/
  reaches : ∀ {r : Region}, capacity ≠ 0 → Region.extent capacity.toNat ≤ r.size.toNat →
    Region.Reaches capacity r ∧ ∀ i < capacity.toNat, r.Contains i

/-- The bytes behind queues, for every capacity, every file and every header. -/
theorem slots_mapped (capacity : UInt64) : Backing capacity where
  created := maps_create
  attached := maps_attach
  refused := fun hlong h name path => create_overflow h name path hlong
  attaches := fun {h path r} hr hregion hlength name => by
    simp only [regionAt?] at hr
    split at hr
    · rename_i file hfile
      cases hr
      exact attach_of_check hfile ((Region.check_eq_ok_iff path).2 ⟨hregion, hlength⟩) name
    · cases hr
  attaches_created := attach_create
  reaches := fun {r} hpos hlength =>
    ⟨Region.confined_held hpos r, fun _ hi => Region.contains_of_lt hlength hi⟩

/-- A queue of two slots is created and attached to, and its second slot is the last thing in the
region. -/
theorem slots_mapped_pair :
    ∃ h file, ({ tree := ⟨[]⟩ } : Host).create "creator" "queue" 2 = (.mapped ⟨"queue", 2⟩, h) ∧
      h.Maps "creator" ⟨file, ⟨"queue", 2⟩, true⟩ ∧ (h.region file).size.toNat = 176 ∧
      (h.attach "worker" "queue" 2).1 = .mapped ⟨"queue", 2⟩ ∧
      (h.region file).Contains 1 ∧ ¬ (h.region file).Contains 2 := by
  have hcreate : ({ tree := ⟨[]⟩ } : Host).create "creator" "queue" 2 =
      (.mapped ⟨"queue", 2⟩, (({ tree := ⟨[]⟩ } : Host).create "creator" "queue" 2).2) := by rfl
  obtain ⟨-, file, hmaps, hsize⟩ := (slots_mapped 2).created hcreate
  obtain ⟨-, hcontains⟩ := (slots_mapped 2).reaches (by decide) (Nat.le_of_eq hsize.symm)
  refine ⟨_, file, hcreate, hmaps, hsize, (slots_mapped 2).attaches_created hcreate rfl "worker",
    hcontains 1 (by decide), ?_⟩
  rw [Region.Contains, hsize]
  decide

/-- A queue with as many slots as a machine word cannot tell the bytes of. -/
example : ({ tree := ⟨[]⟩ } : Host).create "creator" "queue" 0x400000000000000 =
    (.failed .overflow, { tree := ⟨[]⟩ }) := by rfl

end Host

end RealTime
