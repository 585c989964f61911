import RealTime.Proofs.Admission.Selection
import RealTime.Settings.Basic

/-! # The platform that settings describe

Settings are checked before a platform is built from them, and the two know nothing of each other:
the check counts run queues and looks their cores up in a list, while the platform searches for a
free slot, registers a run queue and lets its core host it, each of which may fail.  After the check
all but one of these failures are impossible.

The induction is on the run queues that are still to be added.  `Built` says what is there once
some of them have been, exactly: the next one gets its own number as its slot, and its core has the
class of the run queues that name it so far.

* `check_eq_ok_iff`     what the check accepts
* `Built.addQueue_ok`, `Built.addQueue_error`  one more run queue, as its core allows
* `platform_built`      everything is built, or a run queue has met another class on its core
* `platform_described`  who the hosts are, what they serve, and which cores are left -/

namespace RealTime.Settings

variable {s : Settings} {cores : List (Nat × CoreState)} {queues : List QueueSetting}
  {q q' : QueueSetting} {p : Platform} {i core : Nat} {c : Core}

/-! ### The check -/

/-- Nothing is found if nothing stands twice in the list or has been seen before. -/
theorem firstRepeated?_eq_none_iff {α : Type} [DecidableEq α] {seen l : List α} :
    firstRepeated? seen l = none ↔ l.Nodup ∧ ∀ a ∈ l, a ∉ seen := by
  induction l generalizing seen with
  | nil => simp [firstRepeated?]
  | cons a l ih =>
    rw [firstRepeated?]
    split
    · rename_i ha
      simp [ha]
    · rename_i ha
      rw [ih]
      grind

/-- Settings are accepted if queues have room, no core comes twice, every run queue has a slot, and it
names a known core. -/
theorem check_eq_ok_iff : s.check = .ok () ↔
    s.capacity ≠ 0 ∧ (s.cores.map (·.1)).Nodup ∧ s.queues.length ≤ s.slots ∧
      ∀ q ∈ s.queues, q.core ∈ s.cores.map (·.1) := by
  have hrepeated : firstRepeated? [] (s.cores.map (·.1)) = none ↔ (s.cores.map (·.1)).Nodup := by
    simp [firstRepeated?_eq_none_iff]
  rw [← hrepeated, check]
  split
  · simp [*]
  · split
    · simp [*]
    · split
      · simp only [*, reduceCtorEq, false_iff]
        omega
      · split
        · rename_i q i hfound
          have hunknown : q.core ∉ s.cores.map (·.1) := by simpa using List.find?_some hfound
          have hq := List.mem_zipIdx_iff_getElem?.1 (List.mem_of_find?_eq_some hfound)
          simp only [reduceCtorEq, false_iff]
          rintro ⟨-, -, -, hknown⟩
          exact hunknown (hknown q (List.mem_of_getElem? hq))
        · rename_i hcapacity _ hnone hroom _ hfound
          refine iff_of_true rfl ⟨hcapacity, hnone, Nat.le_of_not_lt hroom, fun q hq => ?_⟩
          obtain ⟨i, hi⟩ := List.mem_iff_getElem?.1 hq
          simpa using List.find?_eq_none.1 hfound (q, i) (List.mem_zipIdx_iff_getElem?.2 hi)

/-! ### One run queue after the other -/

private theorem getElem?_concat_eq_some_iff {α : Type} {l : List α} {a b : α} :
    (l ++ [a])[i]? = some b ↔ l[i]? = some b ∨ i = l.length ∧ b = a := by
  rw [List.getElem?_append]
  grind

/-- A platform consists of cores and of the first run queues that settings describe: each of them has
its own number as its slot, and its core hosts it and serves its class. -/
structure Built (cores : List (Nat × CoreState)) (queues : List QueueSetting) (p : Platform) :
    Prop where
  slots_eq : p.slots = cores.length
  queues_eq : p.queues = queues.mapIdx fun i q =>
    { taskClass := q.taskClass, strategy := q.strategy, slot := i }
  state_iff : ∀ {id : Nat} {state : CoreState},
    (id, state) ∈ cores ↔ ∃ c, p.cores.get? id = some c ∧ c.state = state
  hosted_iff : ∀ {id : Nat} {c : Core}, p.cores.get? id = some c → ∀ {i : Nat},
    i ∈ c.hosted ↔ ∃ q, queues[i]? = some q ∧ q.core = id
  class_eq : ∀ {q : QueueSetting}, q ∈ queues →
    ∃ c, p.cores.get? q.core = some c ∧ c.taskClass = q.taskClass

/-- A platform without run queues. -/
theorem built_ofCores (hnodup : (cores.map (·.1)).Nodup) :
    Built cores [] (.ofCores cores cores.length) where
  slots_eq := rfl
  queues_eq := rfl
  state_iff := by
    intro id state
    have hget : ∀ c, (Platform.ofCores cores cores.length).cores.get? id = some c ↔
        ∃ e ∈ cores, (e.1, ({ state := e.2 } : Core)) = (id, c) := by
      intro c
      rw [Platform.ofCores, OrderedMap.get?_ofList_iff, List.mem_map]
      rwa [List.map_map]
    simp only [hget]
    constructor
    · intro h
      exact ⟨{ state }, ⟨(id, state), h, rfl⟩, rfl⟩
    · rintro ⟨c, ⟨⟨id, state⟩, h, heq⟩, rfl⟩
      cases heq
      exact h
  hosted_iff := by
    intro id c hc i
    have := (Platform.registered_ofCores cores cores.length).lt_length hc i
    simpa [Platform.ofCores] using this
  class_eq := nofun

namespace Built

variable (h : Built cores queues p)

include h

theorem length_eq : p.queues.length = queues.length := by
  rw [h.queues_eq, List.length_mapIdx]

theorem getElem?_eq (hq : queues[i]? = some q) : p.queues[i]? =
    some { taskClass := q.taskClass, strategy := q.strategy, slot := i } := by
  rw [h.queues_eq, List.getElem?_mapIdx, hq, Option.map_some]

theorem registered : p.Registered := by
  refine ⟨fun hc i hi => ?_⟩
  obtain ⟨q, hq, -⟩ := (h.hosted_iff hc).1 hi
  rw [h.length_eq]
  exact (List.getElem?_eq_some_iff.1 hq).1

/-- The slots in use are the numbers of the run queues. -/
theorem usesSlot_iff {slot : Nat} : p.usesSlot slot = true ↔ slot < queues.length := by
  simp only [Platform.usesSlot, h.queues_eq, List.any_eq_true, beq_iff_eq, List.mem_mapIdx]
  constructor
  · rintro ⟨d, ⟨i, hi, rfl⟩, rfl⟩
    exact hi
  · intro hlt
    exact ⟨_, ⟨slot, hlt, rfl⟩, rfl⟩

/-- The next slot is the lowest one that is free. -/
theorem freeSlot?_eq (hroom : queues.length < cores.length) :
    p.freeSlot? = some queues.length := by
  rw [Platform.freeSlot?, List.find?_range_eq_some, List.mem_range, h.slots_eq]
  simp only [Bool.not_eq_true', h.usesSlot_iff, ← Bool.not_eq_true]
  exact ⟨Nat.lt_irrefl _, hroom, fun i hi => by simpa using hi⟩

/-- The core of a run queue is a known one. -/
theorem exists_core (hknown : core ∈ cores.map (·.1)) : ∃ c, p.cores.get? core = some c := by
  obtain ⟨⟨id, state⟩, hmem, rfl⟩ := List.mem_map.1 hknown
  obtain ⟨c, hc, -⟩ := h.state_iff.1 hmem
  exact ⟨c, hc⟩

/-- A core is unused as long as no run queue names it. -/
theorem isUnused_iff (hc : p.cores.get? core = some c) :
    c.isUnused = true ↔ ∀ q ∈ queues, q.core ≠ core := by
  rw [Core.isUnused, List.isEmpty_iff, List.eq_nil_iff_forall_not_mem]
  constructor
  · intro hnone q hq hcore
    obtain ⟨i, hi⟩ := List.mem_iff_getElem?.1 hq
    exact hnone i ((h.hosted_iff hc).2 ⟨q, hi, hcore⟩)
  · intro hnone i hi
    obtain ⟨q, hq, hcore⟩ := (h.hosted_iff hc).1 hi
    exact hnone q (List.mem_of_getElem? hq) hcore

/-- The next run queue is registered on the next slot; then it is up to its core. -/
theorem addQueue_eq (hroom : queues.length < cores.length) (hc : p.cores.get? q.core = some c)
    (index : Nat) :
    let p' : Platform := { p with queues := p.queues ++
      [{ taskClass := q.taskClass, strategy := q.strategy, slot := queues.length }] }
    addQueue p q index =
      if c.isUnused then
        .ok (p'.modifyCore q.core fun c =>
          { c with taskClass := q.taskClass, hosted := c.hosted.insert queues.length })
      else if c.taskClass ≠ q.taskClass then
        .error (.cannotBind index q.core
          (.classMismatch q.core queues.length c.taskClass q.taskClass))
      else .ok (p'.modifyCore q.core fun c =>
        { c with hosted := c.hosted.insert queues.length }) := by
  intro p'
  have hfree : p.usesSlot queues.length = false := by
    rw [← Bool.not_eq_true, h.usesSlot_iff]
    exact Nat.lt_irrefl _
  have hslot : ¬ queues.length ≥ p.slots := by
    rw [h.slots_eq]
    exact Nat.not_le.2 hroom
  have hadd : p.addQueue
      { taskClass := q.taskClass, strategy := q.strategy, slot := queues.length } =
        (.ok queues.length, p') := by
    simp [Platform.addQueue, hfree, hslot, h.length_eq, p']
  -- the run queue has the next number, which nobody hosts yet
  have hget : p'.queues[p.queues.length]? =
      some { taskClass := q.taskClass, strategy := q.strategy, slot := queues.length } :=
    List.getElem?_concat_length
  rw [h.length_eq] at hget
  have hhost : p'.hostOf? queues.length = none :=
    h.registered.hostOf?_eq_none (Nat.le_of_eq h.length_eq)
  have hcore : p'.core q.core = .ok c := Platform.core_eq hc
  simp only [addQueue, h.freeSlot?_eq hroom, hadd, Platform.allocate, Platform.given,
    Platform.queue_eq hget, hhost, hcore]
  by_cases hunused : c.isUnused = true
  · simp only [if_pos hunused]
  · by_cases hclass : c.taskClass ≠ q.taskClass
    · simp only [if_neg hunused, if_pos hclass]
    · simp only [if_neg hunused, if_neg hclass]

/-- One more run queue is there once its core, which is free or of its class, hosts it. -/
theorem hosts (hc : p.cores.get? q.core = some c) {f : Core → Core}
    (hclass : ∀ q' ∈ queues, q'.core = q.core → q'.taskClass = q.taskClass)
    (hf : f c = { c with taskClass := q.taskClass, hosted := c.hosted.insert queues.length }) :
    Built cores (queues ++ [q]) { p with
      queues := p.queues ++
        [{ taskClass := q.taskClass, strategy := q.strategy, slot := queues.length }]
      cores := p.cores.modify q.core f } where
  slots_eq := h.slots_eq
  queues_eq := by rw [List.mapIdx_concat, ← h.queues_eq]
  state_iff := by
    intro id state
    simp only [h.state_iff, OrderedMap.get?_modify_eq_some_iff hc]
    -- the core that takes the run queue keeps its state, the others all they have
    by_cases hid : id = q.core
    · subst hid
      simp [hc, hf]
    · simp [hid]
  hosted_iff := by
    intro id c' hc' i
    simp only [getElem?_concat_eq_some_iff]
    rcases (OrderedMap.get?_modify_eq_some_iff hc).1 hc' with ⟨rfl, rfl⟩ | ⟨hid, hc'⟩
    · rw [hf, OrderedSet.mem_insert, h.hosted_iff hc]
      grind
    · rw [h.hosted_iff hc']
      grind
  class_eq := by
    intro q' hq'
    simp only [OrderedMap.get?_modify_eq_some_iff hc]
    -- on the core of the new run queue all run queues, old and new, are of its class
    by_cases hcore : q'.core = q.core
    · refine ⟨f c, .inl ⟨hcore, rfl⟩, ?_⟩
      rw [hf]
      rcases List.mem_append.1 hq' with hq' | hq'
      · exact (hclass q' hq' hcore).symm
      · rw [List.mem_singleton.1 hq']
    · have hq' : q' ∈ queues := (List.mem_append.1 hq').resolve_right fun hmem =>
        hcore (by rw [List.mem_singleton.1 hmem])
      obtain ⟨c', hc', hclass'⟩ := h.class_eq hq'
      exact ⟨c', .inr ⟨hcore, hc'⟩, hclass'⟩

/-- A run queue can be added if all others with its core have its class. -/
theorem addQueue_ok (hknown : q.core ∈ cores.map (·.1)) (hroom : queues.length < cores.length)
    (hclass : ∀ q' ∈ queues, q'.core = q.core → q'.taskClass = q.taskClass) (index : Nat) :
    ∃ p', addQueue p q index = .ok p' ∧ Built cores (queues ++ [q]) p' := by
  obtain ⟨c, hc⟩ := h.exists_core hknown
  rw [h.addQueue_eq hroom hc]
  by_cases hunused : c.isUnused = true
  · rw [if_pos hunused]
    exact ⟨_, rfl, h.hosts hc hclass rfl⟩
  · -- the core serves the class of a run queue that it hosts already
    obtain ⟨q', hq', hcore⟩ : ∃ q' ∈ queues, q'.core = q.core := by
      simpa [h.isUnused_iff hc] using hunused
    obtain ⟨c', hc', hclass'⟩ := h.class_eq hq'
    obtain rfl : c = c' := Option.some.inj (hc.symm.trans (hcore ▸ hc'))
    have hserves : c.taskClass = q.taskClass := hclass'.trans (hclass q' hq' hcore)
    rw [if_neg hunused, if_neg (not_not.2 hserves)]
    exact ⟨_, rfl, h.hosts hc hclass (by rw [← hserves])⟩

/-- A run queue of another class than its core has is refused. -/
theorem addQueue_error (hroom : queues.length < cores.length) (hq' : q' ∈ queues)
    (hcore : q'.core = q.core) (hclass : q'.taskClass ≠ q.taskClass) (index : Nat) :
    addQueue p q index = .error (.cannotBind index q.core
      (.classMismatch q.core queues.length q'.taskClass q.taskClass)) := by
  obtain ⟨c, hc, hserves⟩ := h.class_eq hq'
  rw [hcore] at hc
  have hunused : ¬ c.isUnused = true := fun hunused =>
    (h.isUnused_iff hc).1 hunused q' hq' hcore
  rw [h.addQueue_eq hroom hc, if_neg hunused, hserves, if_pos hclass]

/-- All run queues that name one core have one class. -/
theorem class_eq_of_core_eq (hq : q ∈ queues) (hq' : q' ∈ queues) (hcore : q.core = q'.core) :
    q.taskClass = q'.taskClass := by
  obtain ⟨c, hc, hclass⟩ := h.class_eq hq
  obtain ⟨c', hc', hclass'⟩ := h.class_eq hq'
  obtain rfl : c = c' := Option.some.inj (hc.symm.trans (hcore ▸ hc'))
  exact hclass.symm.trans hclass'

/-- Whoever asks for the host of a run queue gets the core that it names. -/
theorem hostOf?_eq (hq : queues[i]? = some q) : p.hostOf? i = some q.core := by
  obtain ⟨c, hc, -⟩ := h.class_eq (List.mem_of_getElem? hq)
  have hhosted : (p.hostOf? i).isSome = true :=
    Platform.isSome_hostOf?.2 ⟨q.core, c, hc, (h.hosted_iff hc).2 ⟨q, hq, rfl⟩⟩
  obtain ⟨core, hhost⟩ := Option.isSome_iff_exists.1 hhosted
  obtain ⟨c', hc', hi⟩ := Platform.exists_of_hostOf? hhost
  obtain ⟨q', hq', rfl⟩ := (h.hosted_iff hc').1 hi
  rw [hhost, Option.some.inj (hq'.symm.trans hq)]

/-- The unused cores are those that no run queue names. -/
theorem mem_unusedCores_iff :
    core ∈ p.unusedCores ↔ core ∈ cores.map (·.1) ∧ ∀ q ∈ queues, q.core ≠ core := by
  rw [Platform.unusedCores, List.mem_map]
  constructor
  · rintro ⟨⟨core, c⟩, he, rfl⟩
    obtain ⟨he, hunused⟩ := List.mem_filter.1 he
    have hc := OrderedMap.get?_of_mem_entries he
    exact ⟨List.mem_map.2 ⟨(core, c.state), h.state_iff.2 ⟨c, hc, rfl⟩, rfl⟩,
      (h.isUnused_iff hc).1 hunused⟩
  · rintro ⟨hknown, hnone⟩
    obtain ⟨c, hc⟩ := h.exists_core hknown
    exact ⟨(core, c), List.mem_filter.2 ⟨OrderedMap.mem_entries_of_get? hc,
      (h.isUnused_iff hc).2 hnone⟩, rfl⟩

end Built

/-! ### All of them -/

/-- A run queue comes after another one that names the same core and is of another class. -/
structure Clash (queues : List QueueSetting) (i : Nat) (q q' : QueueSetting) : Prop where
  getElem?_eq : queues[i]? = some q
  earlier : q' ∈ queues.take i
  core_eq : q'.core = q.core
  class_ne : q'.taskClass ≠ q.taskClass

/-- The failure of a run queue that clashes with another one. -/
def clashError (i : Nat) (q q' : QueueSetting) : SettingsError :=
  .cannotBind i q.core (.classMismatch q.core i q'.taskClass q.taskClass)

theorem Built.addQueues (h : Built cores queues p) {rest : List QueueSetting}
    (hknown : ∀ q ∈ rest, q.core ∈ cores.map (·.1))
    (hroom : queues.length + rest.length ≤ cores.length) :
    let result := (rest.zipIdx queues.length).foldlM (fun p (q, index) => addQueue p q index) p
    (∃ p', result = .ok p' ∧ Built cores (queues ++ rest) p') ∨
      ∃ i q q', Clash (queues ++ rest) i q q' ∧ result = .error (clashError i q q') := by
  induction rest generalizing queues p with
  | nil => exact .inl ⟨p, rfl, by rwa [List.append_nil]⟩
  | cons q rest ih =>
    intro result
    rw [List.length_cons] at hroom
    have hroom' : queues.length < cores.length := by omega
    have hresult : result = addQueue p q queues.length >>= fun p =>
        (rest.zipIdx (queues.length + 1)).foldlM (fun p (q, index) => addQueue p q index) p := by
      simp only [result, List.zipIdx_cons, List.foldlM_cons]
    by_cases hclass : ∀ q' ∈ queues, q'.core = q.core → q'.taskClass = q.taskClass
    · obtain ⟨p', hadd, hbuilt⟩ :=
        h.addQueue_ok (hknown q List.mem_cons_self) hroom' hclass queues.length
      have hrest := ih hbuilt (fun q hq => hknown q (List.mem_cons_of_mem _ hq))
        (by rw [List.length_append, List.length_singleton]; omega)
      simp only [List.length_append, List.length_singleton, List.append_assoc,
        List.singleton_append] at hrest
      rw [hresult, hadd]
      exact hrest
    · push Not at hclass
      obtain ⟨q', hq', hcore, hne⟩ := hclass
      refine .inr ⟨queues.length, q, q', ⟨?_, ?_, hcore, hne⟩, ?_⟩
      · rw [List.getElem?_append_right (Nat.le_refl _), Nat.sub_self, List.getElem?_cons_zero]
      · rwa [List.take_left]
      · rw [hresult, h.addQueue_error hroom' hq' hcore hne]
        rfl

/-- After the check everything is built as described, unless a run queue meets another class on its
core.  The failure names the run queue, its core and both classes. -/
theorem platform_built (hcheck : s.check = .ok ()) :
    (∃ p, s.platform = .ok p ∧ Built s.cores s.queues p) ∨
      ∃ i q q', Clash s.queues i q q' ∧ s.platform = .error (clashError i q q') := by
  obtain ⟨-, hnodup, hroom, hknown⟩ := check_eq_ok_iff.1 hcheck
  have hbuilds := (built_ofCores hnodup).addQueues hknown (by simpa [slots] using hroom)
  rw [List.nil_append] at hbuilds
  exact hbuilds

/-- Settings that pass the check describe a platform exactly if all run queues on one core have one
class.  The platform has a run queue for each that is described, on the slot with its number and on its
core, which serves its class and hosts no others than those that name it; it has the cores as they are
described, and unused are those that no run queue names. -/
theorem platform_described (s : Settings) (hcheck : s.check = .ok ()) :
    ((∃ p, s.platform = .ok p) ↔
      ∀ q ∈ s.queues, ∀ q' ∈ s.queues, q.core = q'.core → q.taskClass = q'.taskClass) ∧
    ∀ p, s.platform = .ok p →
      p.queues.length = s.queues.length ∧
      (∀ (i : Nat) (q : QueueSetting), s.queues[i]? = some q →
        p.queues[i]? = some { taskClass := q.taskClass, strategy := q.strategy, slot := i } ∧
        p.hostOf? i = some q.core ∧
        ∃ c, p.cores.get? q.core = some c ∧ c.taskClass = q.taskClass) ∧
      (∀ (id : Nat) (c : Core), p.cores.get? id = some c → ∀ i : Nat,
        i ∈ c.hosted ↔ ∃ q, s.queues[i]? = some q ∧ q.core = id) ∧
      (∀ (id : Nat) (state : CoreState),
        (id, state) ∈ s.cores ↔ ∃ c, p.cores.get? id = some c ∧ c.state = state) ∧
      ∀ id : Nat, id ∈ p.unusedCores ↔
        id ∈ s.cores.map (·.1) ∧ ∀ q ∈ s.queues, q.core ≠ id := by
  have hbuilds := platform_built hcheck
  refine ⟨⟨?succeeds, ?fails⟩, ?described⟩
  case succeeds =>
    rintro ⟨p, hp⟩ q hq q' hq' hcore
    rcases hbuilds with ⟨p', -, hbuilt⟩ | ⟨i, q, q', -, herror⟩
    · exact hbuilt.class_eq_of_core_eq hq hq' hcore
    · rw [hp] at herror
      cases herror
  case fails =>
    intro hagree
    rcases hbuilds with ⟨p, hp, -⟩ | ⟨i, q, q', hclash, -⟩
    · exact ⟨p, hp⟩
    · exact absurd (hagree q' (List.mem_of_mem_take hclash.earlier) q
        (List.mem_of_getElem? hclash.getElem?_eq) hclash.core_eq) hclash.class_ne
  case described =>
    intro p hp
    rcases hbuilds with ⟨p', hp', hbuilt⟩ | ⟨i, q, q', -, herror⟩
    · obtain rfl : p = p' := Except.ok.inj (hp.symm.trans hp')
      refine ⟨hbuilt.length_eq, fun i q hq => ⟨hbuilt.getElem?_eq hq, hbuilt.hostOf?_eq hq,
        hbuilt.class_eq (List.mem_of_getElem? hq)⟩, fun id c hc i => hbuilt.hosted_iff hc,
        fun id state => hbuilt.state_iff, fun id => hbuilt.mem_unusedCores_iff⟩
    · rw [hp] at herror
      cases herror

/-- Two run queues share a core, one has a core of its own, and one core is left.  With two classes on
the shared core nothing is built. -/
theorem platform_described_shared :
    let cores : List (Nat × CoreState) := [(7, .active), (3, .standby), (5, .off)]
    let shared : Settings :=
      { cores, queues := [⟨.hi, .deadline, 3⟩, ⟨.lo, .priority, 7⟩, ⟨.hi, .priority, 3⟩] }
    let clashing : Settings := { cores, queues := [⟨.hi, .deadline, 3⟩, ⟨.lo, .priority, 3⟩] }
    shared.check = .ok () ∧ clashing.check = .ok () ∧
      (∃ p, shared.platform = .ok p ∧
        p.hostOf? 2 = some 3 ∧ 5 ∈ p.unusedCores ∧ 3 ∉ p.unusedCores) ∧
      ¬ ∃ p, clashing.platform = .ok p := by
  intro cores shared clashing
  have hshared : shared.check = .ok () := by decide
  have hclashing : clashing.check = .ok () := by decide
  refine ⟨hshared, hclashing, ?_, ?_⟩
  · obtain ⟨p, hp⟩ := (platform_described shared hshared).1.2 (by decide)
    obtain ⟨-, hqueue, -, -, hunused⟩ := (platform_described shared hshared).2 p hp
    exact ⟨p, hp, (hqueue 2 ⟨.hi, .priority, 3⟩ rfl).2.1, (hunused 5).2 (by decide),
      fun h => (hunused 3).1 h |>.2 ⟨.hi, .deadline, 3⟩ (by decide) rfl⟩
  · rw [(platform_described clashing hclashing).1]
    decide

end RealTime.Settings
