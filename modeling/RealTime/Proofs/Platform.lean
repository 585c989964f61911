import RealTime.Platform.Basic
import RealTime.Proofs.Ordered

/-! # Platforms that stay registered

Run queues are numbered in the order of their registration, and a core hosts registered run queues
only.  So the number of the next run queue is hosted by nobody, and a new run queue can always be
bound to an unused core and a free slot.

* `Registered.step`      no change breaks the registration
* `report_eq`            a known run queue takes every report
* `Registered.bindNew_eq`   an unused core and a free slot take a new run queue
* `unusedCores_find?`, `freeSlot?_spec`  what a search for them finds -/

namespace RealTime.Platform

variable {p p' : Platform} {core slot q : Nat} {c : Core} {d : RunQueue}

/-- Every run queue that a core hosts is registered. -/
structure Registered (p : Platform) : Prop where
  lt_length : ∀ {core : Nat} {c : Core}, p.cores.get? core = some c →
    ∀ q ∈ c.hosted, q < p.queues.length

/-! ### Queries -/

theorem core_eq (h : p.cores.get? core = some c) : p.core core = .ok c := by
  simp only [Platform.core, h]

theorem queue_eq (h : p.queues[q]? = some d) : p.queue q = .ok d := by
  simp only [Platform.queue, h]

theorem getElem?_of_queue (h : p.queue q = .ok d) : p.queues[q]? = some d := by
  simp only [Platform.queue] at h
  split at h
  · rename_i hget
    cases h
    exact hget
  · cases h

theorem get?_of_core (h : p.core core = .ok c) : p.cores.get? core = some c := by
  simp only [Platform.core] at h
  split at h
  · rename_i hget
    cases h
    exact hget
  · cases h

/-- An unused core that passes a test is known, unused, and passes. -/
theorem unusedCores_find? {test : Nat → Bool} (h : p.unusedCores.find? test = some core) :
    test core = true ∧ ∃ c, p.cores.get? core = some c ∧ c.isUnused = true := by
  refine ⟨List.find?_some h, ?_⟩
  have hmem := List.mem_of_find?_eq_some h
  obtain ⟨⟨id, c⟩, he, rfl⟩ := List.mem_map.1 hmem
  obtain ⟨he, hunused⟩ := List.mem_filter.1 he
  exact ⟨c, OrderedMap.get?_of_mem_entries he, hunused⟩

/-- A free slot backs no run queue. -/
theorem freeSlot?_spec (h : p.freeSlot? = some slot) :
    slot < p.slots ∧ p.usesSlot slot = false := by
  have hmem := List.mem_of_find?_eq_some h
  have hfree := List.find?_some h
  exact ⟨List.mem_range.1 hmem, by simpa using hfree⟩

/-- A matching run queue is one that takes such tasks. -/
theorem exists_of_mem_matching {taskClass : TaskClass} {strategy : Strategy}
    (h : q ∈ p.matching taskClass strategy) :
    ∃ d, p.queues[q]? = some d ∧ d.takes taskClass strategy = true := by
  obtain ⟨⟨d, i⟩, he, rfl⟩ := List.mem_map.1 h
  obtain ⟨he, hmatches⟩ := List.mem_filter.1 he
  exact ⟨d, List.mem_zipIdx_iff_getElem?.1 he, (Bool.and_eq_true _ _ ▸ hmatches).1⟩

/-- Nobody hosts a run queue that is not registered. -/
theorem Registered.hostOf?_eq_none (h : p.Registered) (hq : p.queues.length ≤ q) :
    p.hostOf? q = none := by
  rw [hostOf?, Option.map_eq_none_iff, List.find?_eq_none]
  intro e he hhosted
  -- whoever hosts `q` hosts only run queues with smaller numbers
  have hlt := h.lt_length (OrderedMap.get?_of_mem_entries he) q (of_decide_eq_true hhosted)
  omega

/-! ### Changes -/

/-- Nothing is hosted on a platform without run queues. -/
theorem registered_ofCores (cores : List (Nat × CoreState)) (slots : Nat) :
    (ofCores cores slots).Registered := by
  refine ⟨fun hc q hq => ?_⟩
  obtain ⟨⟨id, state⟩, -, heq⟩ := List.mem_map.1 (OrderedMap.mem_of_get?_ofList hc)
  cases heq
  exact absurd hq (OrderedSet.not_mem_empty q)

/-- More run queues do no harm. -/
theorem Registered.withQueues (h : p.Registered) {queues : List RunQueue}
    (hlength : p.queues.length ≤ queues.length) : { p with queues }.Registered :=
  ⟨fun hc q hq => Nat.lt_of_lt_of_le (h.lt_length hc q hq) hlength⟩

/-- A core may change as long as it hosts registered run queues only. -/
theorem Registered.modifyCore (h : p.Registered) {f : Core → Core}
    (hf : ∀ {c : Core}, p.cores.get? core = some c → ∀ q ∈ (f c).hosted, q < p.queues.length) :
    (p.modifyCore core f).Registered := by
  refine ⟨fun hc q hq => ?_⟩
  simp only [Platform.modifyCore, OrderedMap.get?_modify] at hc
  split at hc
  · rename_i heq
    subst heq
    obtain ⟨c', hc', rfl⟩ := Option.map_eq_some_iff.1 hc
    exact hf hc' q hq
  · exact h.lt_length hc q hq

/-- A known run queue takes every report. -/
theorem report_eq (h : p.queues[q]? = some d) (utilization : Float) :
    p.report q utilization = (.ok (), { p with
      queues := p.queues.set q { d with utilization := clampUtilization utilization } }) := by
  simp only [report, given, queue_eq h]

/-- A report for the run queue that was registered last. -/
theorem report_last (cores : OrderedMap Nat Core) (queues : List RunQueue) (d : RunQueue)
    (slots : Nat) (utilization : Float) :
    report { cores, queues := queues ++ [d], slots } queues.length utilization =
      (.ok (), { cores, slots
                 queues := queues ++
                   [{ d with utilization := clampUtilization utilization }] }) := by
  rw [report_eq List.getElem?_concat_length, List.set_append_right _ _ (Nat.le_refl _),
    Nat.sub_self]
  rfl

theorem Registered.addQueue (h : p.Registered) (d : RunQueue) : (p.addQueue d).2.Registered := by
  simp only [Platform.addQueue]
  split
  · exact h
  · apply h.withQueues
    rw [List.length_append]
    omega

theorem Registered.allocate (h : p.Registered) (core q : Nat) :
    (p.allocate core q).2.Registered := by
  -- only a registered run queue is added to those that a core hosts
  have hinsert : ∀ {d : RunQueue}, p.queue q = .ok d → ∀ (taskClass : Core → TaskClass),
      (p.modifyCore core fun c =>
        { c with taskClass := taskClass c, hosted := c.hosted.insert q }).Registered := by
    intro d hd taskClass
    have hlt : q < p.queues.length := (List.getElem?_eq_some_iff.1 (getElem?_of_queue hd)).1
    refine h.modifyCore fun hc i hi => ?_
    rcases OrderedSet.mem_insert.1 hi with rfl | hi
    · exact hlt
    · exact h.lt_length hc i hi
  simp only [Platform.allocate, given]
  split
  · rename_i d hd
    split
    · exact h
    · split
      · split
        · exact hinsert hd fun _ => d.taskClass
        · split
          · exact h
          · exact hinsert hd Core.taskClass
      · exact h
  · exact h

theorem Registered.deallocate (h : p.Registered) (core q : Nat) :
    (p.deallocate core q).2.Registered := by
  simp only [Platform.deallocate, given]
  split
  · split
    · exact h.modifyCore fun hc i hi => h.lt_length hc i (OrderedSet.mem_erase.1 hi).1
    · exact h
  · exact h

theorem Registered.setClass (h : p.Registered) (core : Nat) (taskClass : TaskClass) :
    (p.setClass core taskClass).2.Registered := by
  simp only [Platform.setClass, given]
  split
  · split
    · exact h.modifyCore fun hc i hi => h.lt_length hc i hi
    · exact h
  · exact h

theorem Registered.setState (h : p.Registered) (core : Nat) (state : CoreState) :
    (p.setState core state).2.Registered := by
  simp only [Platform.setState, given]
  split
  · exact h.modifyCore fun hc i hi => h.lt_length hc i hi
  · exact h

theorem Registered.report (h : p.Registered) (q : Nat) (utilization : Float) :
    (p.report q utilization).2.Registered := by
  simp only [Platform.report, given]
  split
  · exact h.withQueues (Nat.le_of_eq List.length_set.symm)
  · exact h

/-- Changes one after the other keep what each of them keeps. -/
theorem Registered.andThen {α β : Type} {r : Except PlatformError α × Platform}
    {f : α → Platform → Except PlatformError β × Platform} (h : r.2.Registered)
    (hf : ∀ {a p}, p.Registered → (f a p).2.Registered) :
    (Platform.andThen r f).2.Registered := by
  obtain ⟨result, p⟩ := r
  cases result with
  | ok a => exact hf h
  | error e => exact h

theorem Registered.bindNew (h : p.Registered) (core slot : Nat) (taskClass : TaskClass)
    (strategy : Strategy) : (p.bindNew core slot taskClass strategy).2.Registered := by
  simp only [Platform.bindNew, given]
  split
  · split
    · exact h
    · exact Registered.andThen (h.addQueue _) fun hadd =>
        Registered.andThen (hadd.allocate core _) fun hallocate => hallocate
  · exact h

/-- No change breaks the registration. -/
theorem Registered.step (h : p.Registered) (change : Change) : (p.step change).2.Registered := by
  cases change with
  | addQueue => exact Registered.andThen (h.addQueue _) fun hp => hp
  | allocate core q => exact Registered.andThen (h.allocate core q) fun hp => hp
  | deallocate core q => exact Registered.andThen (h.deallocate core q) fun hp => hp
  | setClass core taskClass => exact Registered.andThen (h.setClass core taskClass) fun hp => hp
  | setState core state => exact Registered.andThen (h.setState core state) fun hp => hp
  | report q utilization => exact Registered.andThen (h.report q utilization) fun hp => hp
  | bindNew core slot taskClass strategy =>
    exact Registered.andThen (h.bindNew core slot taskClass strategy) fun hp => hp

/-- An unused core and a free slot take a new run queue. -/
theorem Registered.bindNew_eq (h : p.Registered) (hc : p.cores.get? core = some c)
    (hunused : c.isUnused = true) (hslot : slot < p.slots) (hfree : p.usesSlot slot = false)
    (taskClass : TaskClass) (strategy : Strategy) :
    p.bindNew core slot taskClass strategy =
      (.ok p.queues.length, { p with
        queues := p.queues ++ [{ taskClass, strategy, slot }]
        cores := p.cores.modify core fun c =>
          { c with taskClass, hosted := c.hosted.insert p.queues.length } }) := by
  have hsize : ¬ c.hosted.size > 0 := by
    rw [Core.isUnused, List.isEmpty_iff] at hunused
    rw [OrderedSet.size, hunused]
    exact Nat.lt_irrefl 0
  have hadd : p.addQueue { taskClass, strategy, slot } =
      (.ok p.queues.length, { p with queues := p.queues ++ [{ taskClass, strategy, slot }] }) := by
    simp [Platform.addQueue, Nat.not_le.2 hslot, hfree]
  -- the new run queue has the next number, which nobody hosts yet
  have hhost : hostOf? { p with queues := p.queues ++ [{ taskClass, strategy, slot }] }
      p.queues.length = none := h.hostOf?_eq_none (Nat.le_refl _)
  have hqueue : queue { p with queues := p.queues ++ [{ taskClass, strategy, slot }] }
      p.queues.length = .ok { taskClass, strategy, slot } :=
    queue_eq List.getElem?_concat_length
  have hcore : Platform.core { p with queues := p.queues ++ [{ taskClass, strategy, slot }] }
      core = .ok c := core_eq hc
  simp only [Platform.bindNew, given, core_eq hc, if_neg hsize, hadd, Platform.andThen,
    Platform.allocate, hqueue, hhost, hcore, if_pos hunused]
  rfl

end RealTime.Platform
