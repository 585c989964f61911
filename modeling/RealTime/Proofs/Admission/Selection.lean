import Mathlib.Data.List.MinMax
import RealTime.Proofs.Admission.Kinds
import RealTime.Proofs.Utilizations

/-! # The choice of a run queue

A task goes to the least loaded of the run queues that are hosted and take such tasks, and of several
such to the first one.  The search keeps the best run queue that it has seen and replaces it by
smaller ones only.  Numbers lie on one line, so among them it finds what it should.  A utilization
that is not a number is not larger than any either, and still the search passes over it, unless it
is the first one that it sees.

What comes of the task is then up to the slot of that run queue (`verdict`).  Nothing else is tried.

* `Platform.mem_matching_iff`    the run queues that a task may go to
* `prefers_leastLoaded`          the search finds the least loaded one
* `enter_result`                 an entry comes to what the slot says
* `tries_place`                  one slot is tried
* `least_loaded`                 in every state that can be reached
* `least_loaded_behind`          a run queue that is passed over -/

namespace RealTime

namespace Platform

variable {p : Platform} {t : Task} {q : Nat} {d : RunQueue}

/-- A run queue has a host and takes a task. -/
structure Offers (p : Platform) (t : Task) (q : Nat) (d : RunQueue) : Prop where
  queue : p.queues[q]? = some d
  taskClass_eq : d.taskClass = t.taskClass
  strategy_eq : d.strategy = t.strategy
  hosted : ∃ core c, p.cores.get? core = some c ∧ q ∈ c.hosted

/-- Of the run queues that a task may go to none has a smaller utilization than this one. -/
def Unbeaten (p : Platform) (t : Task) (d : RunQueue) : Prop :=
  ∀ {q' : Nat} {d' : RunQueue}, p.Offers t q' d' → ¬ d'.utilization < d.utilization

/-- The run queue `q` is unbeaten, and it is the first one of all that are, apart from those whose
utilization is not a number. -/
structure Prefers (p : Platform) (t : Task) (q : Nat) (d : RunQueue) : Prop where
  least : p.Unbeaten t d
  first : ∀ {q' : Nat} {d' : RunQueue}, p.Offers t q' d' → p.Unbeaten t d' →
    q ≤ q' ∨ d'.utilization.isNaN = true

/-! ### Run queues that a task may go to -/

/-- The core that is found hosts the run queue. -/
theorem exists_of_hostOf? {core : Nat} (h : p.hostOf? q = some core) :
    ∃ c, p.cores.get? core = some c ∧ q ∈ c.hosted := by
  obtain ⟨⟨id, c⟩, he, rfl⟩ := Option.map_eq_some_iff.1 h
  have hhosted := List.find?_some he
  exact ⟨c, OrderedMap.get?_of_mem_entries (List.mem_of_find?_eq_some he),
    of_decide_eq_true hhosted⟩

theorem isSome_hostOf? :
    (p.hostOf? q).isSome = true ↔ ∃ core c, p.cores.get? core = some c ∧ q ∈ c.hosted := by
  constructor
  · intro h
    obtain ⟨core, hcore⟩ := Option.isSome_iff_exists.1 h
    exact ⟨core, exists_of_hostOf? hcore⟩
  · rintro ⟨core, c, hc, hq⟩
    rw [hostOf?, Option.isSome_map, List.find?_isSome]
    exact ⟨(core, c), OrderedMap.mem_entries_of_get? hc, decide_eq_true hq⟩

theorem mem_matching_iff : q ∈ p.matching t.taskClass t.strategy ↔ ∃ d, p.Offers t q d := by
  simp only [matching, List.mem_map, List.mem_filter, Bool.and_eq_true, RunQueue.takes,
    decide_eq_true_eq]
  constructor
  · rintro ⟨⟨d, i⟩, ⟨hd, ⟨hclass, hstrategy⟩, hhost⟩, rfl⟩
    exact ⟨d, List.mem_zipIdx_iff_getElem?.1 hd, hclass, hstrategy, isSome_hostOf?.1 hhost⟩
  · rintro ⟨d, hd, hclass, hstrategy, hhost⟩
    exact ⟨(d, q), ⟨List.mem_zipIdx_iff_getElem?.2 hd, ⟨hclass, hstrategy⟩,
      isSome_hostOf?.2 hhost⟩, rfl⟩

/-- They are found in the order of their numbers. -/
theorem pairwise_matching (p : Platform) (taskClass : TaskClass) (strategy : Strategy) :
    (p.matching taskClass strategy).Pairwise (· < ·) := by
  refine List.Pairwise.sublist (List.filter_sublist.map _) ?_
  rw [List.zipIdx_map_snd]
  exact List.pairwise_lt_range' 1

end Platform

namespace Admission

variable {a : Admission} {t : Task} {q slot : Nat} {d : RunQueue} {intruder : Option Nat}
  {platform : Platform} {first : Nat} {rest : List Nat}

/-! ### The least loaded run queue -/

theorem load_eq (hd : platform.queues[q]? = some d) : load platform q = d.utilization := by
  simp only [load, hd]

/-- What is not a number stays the best one that the search has seen. -/
theorem leastLoaded_of_isNaN (h : (load platform first).isNaN = true) :
    leastLoaded platform first rest = first := by
  induction rest with
  | nil => rfl
  | cons q rest ih =>
    rw [leastLoaded, List.foldl_cons, if_neg (Platform.not_lt_of_isNaN h), ← leastLoaded]
    exact ih

/-- A search that starts with a number ends with one. -/
theorem isNaN_leastLoaded (h : (load platform first).isNaN = false) :
    (load platform (leastLoaded platform first rest)).isNaN = false := by
  induction rest generalizing first with
  | nil => exact h
  | cons q rest ih =>
    rw [leastLoaded, List.foldl_cons, ← leastLoaded]
    split
    · exact ih (Platform.isNaN_of_lt ‹_›)
    · exact ih h

/-- If loads compare to numbers as some keys do, the search that starts with a number is the one for
the smallest key. -/
theorem leastLoaded_eq_argmin {β : Type} [LinearOrder β] {key : Nat → β}
    (hkey : ∀ q q', (load platform q').isNaN = false →
      (load platform q < load platform q' ↔ key q < key q'))
    (h : (load platform first).isNaN = false) :
    (first :: rest).argmin key = some (leastLoaded platform first rest) := by
  rw [List.argmin, List.foldl_cons]
  show rest.foldl _ (some first) = _
  induction rest generalizing first with
  | nil => rfl
  | cons q rest ih =>
    rw [List.foldl_cons, leastLoaded, List.foldl_cons, ← leastLoaded]
    -- both searches go on with the better one of the first two, and that is a number again
    simp only [List.argAux, ← hkey _ _ h]
    split
    · exact ih (Platform.isNaN_of_lt ‹_›)
    · exact ih h

/-- The first ones of an ascending list have the smaller numbers. -/
private theorem le_of_idxOf_le {l : List Nat} (hl : l.Pairwise (· < ·)) {i j : Nat} (hi : i ∈ l)
    (hj : j ∈ l) (hle : l.idxOf i ≤ l.idxOf j) : i ≤ j := by
  have hi' := List.idxOf_lt_length_of_mem hi
  have hj' := List.idxOf_lt_length_of_mem hj
  rw [← List.getElem_idxOf hi', ← List.getElem_idxOf hj']
  rcases Nat.lt_or_eq_of_le hle with hlt | heq
  · exact Nat.le_of_lt (List.pairwise_iff_getElem.1 hl _ _ hi' hj' hlt)
  · simp only [heq, Nat.le_refl]

/-- The search finds the least loaded run queue. -/
theorem prefers_leastLoaded (hmatching : platform.matching t.taskClass t.strategy = first :: rest)
    (hd : platform.Offers t (leastLoaded platform first rest) d) :
    platform.Prefers t (leastLoaded platform first rest) d := by
  have hoffers : ∀ {q : Nat}, q ∈ first :: rest ↔ ∃ d, platform.Offers t q d := by
    intro q
    rw [← hmatching, Platform.mem_matching_iff]
  have hsorted := platform.pairwise_matching t.taskClass t.strategy
  rw [hmatching] at hsorted
  cases hfirst : (load platform first).isNaN with
  | true =>
    -- it is the first one of all
    have hload := load_eq hd.queue
    rw [leastLoaded_of_isNaN hfirst] at hload ⊢
    rw [hload] at hfirst
    refine ⟨fun _ => Platform.not_lt_of_isNaN hfirst, fun hd' _ => .inl ?_⟩
    rcases List.mem_cons.1 (hoffers.2 ⟨_, hd'⟩) with rfl | hmem'
    · exact Nat.le_refl _
    · exact Nat.le_of_lt (List.rel_of_pairwise_cons hsorted hmem')
  | false =>
    have hargmin : (first :: rest).argmin _ = some (leastLoaded platform first rest) :=
      leastLoaded_eq_argmin (fun _ _ => Platform.lt_iff_rank) hfirst
    obtain ⟨hmem, hleast, hindex⟩ := List.argmin_eq_some_iff.1 hargmin
    have hnumber : (load platform (leastLoaded platform first rest)).isNaN = false :=
      isNaN_leastLoaded hfirst
    constructor
    case least =>
      intro q' d' hd'
      rw [← load_eq hd.queue, ← load_eq hd'.queue, Platform.lt_iff_rank hnumber, not_lt]
      exact hleast q' (hoffers.2 ⟨d', hd'⟩)
    case first =>
      intro q' d' hd' hleast'
      cases hnumber' : d'.utilization.isNaN with
      | true => exact .inr rfl
      | false =>
        have hle := hleast' hd
        rw [Platform.lt_iff_rank hnumber', ← load_eq hd.queue, ← load_eq hd'.queue, not_lt] at hle
        -- of two with one rank the search keeps the one in front, and that has the smaller number
        have hmem' := hoffers.2 ⟨d', hd'⟩
        exact .inl (le_of_idxOf_le hsorted hmem hmem' (hindex q' hmem' hle))

/-! ### One slot -/

/-- What comes of the entry of a task into a slot, told by the size of the bank, the queue of the
slot, and the tasks that wait for it.  Another process may have taken the lock between the analysis
and the entry. -/
def verdict (t : Task) (slot count : Nat) (capacity : UInt64) (region : Option Region)
    (waiting : List Task) (taken : Bool) : Except AdmissionError PlacementStatus :=
  match region with
  | none => .error (.ring (.noSuchQueue slot count))
  | some r =>
    if r.header.lock ≠ 0 then .error (.ring .locked)
    else
      match r.contents capacity with
      | .error e => .error (.ring e)
      | .ok queued =>
        match analyze t (analysed queued waiting) with
        | .reject reason => .error (.unschedulable t.name slot reason)
        | .accept =>
          if taken then .ok .pending
          else
            match r.push capacity t with
            | .ok _ => .ok .committed
            | .error _ => .error (.ring .full)

/-- An intruder takes the lock of its own slot and of no other. -/
private theorem intrude_getElem? {b : Bank} {r : Region} (hr : b.queues[slot]? = some r)
    (hlock : r.header.lock = 0) (intruder : Option Nat) :
    ∃ r', (intrude b intruder).2.queues[slot]? = some r' ∧
      if intruder = some slot then r'.header.lock ≠ 0 else r' = r := by
  cases intruder with
  | none => exact ⟨r, hr, rfl⟩
  | some i =>
    rw [intrude_some, Bank.lock]
    by_cases hi : i = slot
    · subst hi
      rw [Bank.on_eq hr, Bank.put_getElem? (Bank.lt_count hr), if_pos rfl]
      refine ⟨_, rfl, ?_⟩
      simp only [Region.tryLock, if_pos hlock, if_true]
      show (1 : UInt32) ≠ 0
      decide
    · rw [Bank.on_frame hi]
      refine ⟨r, hr, ?_⟩
      rw [if_neg fun heq => hi (Option.some.inj heq)]

/-- An entry comes to what its slot says. -/
theorem enter_result (a : Admission) (t : Task) (slot : Nat) (intruder : Option Nat) :
    (a.enter t slot intruder).result = verdict t slot a.bank.count a.bank.capacity
      a.bank.queues[slot]? (a.pendingOn slot) (intruder = some slot) := by
  cases hr : a.bank.queues[slot]? with
  | none => simp only [enter, verdict, Bank.list, Bank.on_none hr]
  | some r =>
    simp only [enter, verdict, Bank.list_eq hr]
    by_cases hlock : r.header.lock = 0
    · simp only [if_pos hlock, if_neg (not_not.2 hlock)]
      cases r.contents a.bank.capacity with
      | error e => rfl
      | ok queued =>
        dsimp only
        cases analyze t (analysed queued (a.pendingOn slot)) with
        | reject reason => rfl
        | accept =>
          -- the entry sees the queue that was analysed, unless its lock has been taken
          obtain ⟨r', hr', htaken⟩ := intrude_getElem? hr hlock intruder
          have hcapacity := Bank.capacity_eq_of_unlocked (unlocked_intrude a.bank intruder)
          simp only [Bank.enqueue_eq hr', hcapacity]
          by_cases hi : intruder = some slot
          · rw [if_pos hi] at htaken
            rw [if_neg htaken, if_pos (decide_eq_true hi)]
          · rw [if_neg hi] at htaken
            subst htaken
            simp only [if_pos hlock, hi, decide_false]
            cases hpush : r'.push a.bank.capacity t with
            | ok r' => rfl
            | error e =>
              rw [Region.push_error hpush]
              rfl
    · simp only [if_neg hlock, if_pos (show r.header.lock ≠ 0 from hlock)]

theorem Entered.platform_eq {r : Attempt PlacementStatus} (h : Entered a t slot r) :
    r.state.platform = a.platform := by cases h <;> rfl

/-- The entry of a task into a slot leaves the other slots alone. -/
theorem Entered.elsewhere {r : Attempt PlacementStatus} (h : Entered a t slot r) {i : Nat}
    (hi : i ≠ slot) : r.state.bank.unlocked.queues[i]? = a.bank.unlocked.queues[i]? ∧
      r.state.pendingOn i = a.pendingOn i := by
  cases h with
  | refused hbank => exact ⟨by rw [hbank], rfl⟩
  | committed hr _ _ _ hbank =>
    refine ⟨?_, rfl⟩
    rw [hbank, Bank.unlocked_queues_getElem?, Bank.put_getElem? (Bank.lt_count hr),
      if_neg hi.symm, Bank.unlocked_queues_getElem?]
  | waits _ _ _ hbank => exact ⟨by rw [hbank], pendingOn_insert.trans (if_neg hi)⟩

/-! ### Attempts -/

variable {r : Attempt Placement}

/-- A refused attempt changes nothing but locks. -/
theorem Placed.unchanged (h : Placed a t r) {e : AdmissionError} (he : r.result = .error e) :
    r.state.platform = a.platform ∧ r.state.bank.unlocked = a.bank.unlocked ∧
      r.state.pending = a.pending := by
  cases h with
  | refused hbank => exact ⟨rfl, hbank, rfl⟩
  | placed => cases he

/-- An attempt leaves those slots alone on which it does not place the task. -/
theorem Placed.elsewhere (h : Placed a t r) {i : Nat} (hi : ∀ p, r.result = .ok p → i ≠ p.slot) :
    r.state.bank.unlocked.queues[i]? = a.bank.unlocked.queues[i]? ∧
      r.state.pendingOn i = a.pendingOn i := by
  cases h with
  | refused hbank => exact ⟨by rw [hbank], rfl⟩
  | placed hentered => exact hentered.elsewhere (hi _ rfl)

/-- An attempt that makes no run queue binds nothing. -/
theorem Placed.unbound (h : Placed a t r) (hcreated : ∀ p, r.result = .ok p → p.created = false) :
    r.state.platform.cores = a.platform.cores ∧
      r.state.platform.queues.length = a.platform.queues.length := by
  cases h with
  | refused => exact ⟨rfl, rfl⟩
  | placed _ _ hprovides =>
    cases hprovides with
    | named => exact ⟨rfl, rfl⟩
    | chosen => exact ⟨rfl, List.length_set⟩
    | created => cases hcreated _ rfl

/-- An attempt to place a task tries one slot, that of a run queue: the slot has the say, all others
stay as they are up to their locks, a refusal changes nothing, and no core and no run queue comes or
goes. -/
structure Tries (a : Admission) (t : Task) (intruder : Option Nat) (q : Nat) (d : RunQueue) :
    Prop where
  result : (a.place t intruder).result =
    (verdict t d.slot a.bank.count a.bank.capacity a.bank.queues[d.slot]? (a.pendingOn d.slot)
      (intruder = some d.slot)).map fun status => ⟨d.slot, some q, status, false⟩
  elsewhere : ∀ i ≠ d.slot,
    (a.place t intruder).state.bank.unlocked.queues[i]? = a.bank.unlocked.queues[i]? ∧
      (a.place t intruder).state.pendingOn i = a.pendingOn i
  refused : ∀ e, (a.place t intruder).result = .error e →
    (a.place t intruder).state.platform = a.platform ∧
      (a.place t intruder).state.bank.unlocked = a.bank.unlocked ∧
      (a.place t intruder).state.pending = a.pending
  unbound : (a.place t intruder).state.platform.cores = a.platform.cores ∧
    (a.place t intruder).state.platform.queues.length = a.platform.queues.length

/-- A task that is placed is placed where it was to be. -/
private theorem chosen_of_map_eq_ok {v : Except AdmissionError PlacementStatus} {p : Placement}
    {queue : Option Nat}
    (h : v.map (fun status => (⟨slot, queue, status, false⟩ : Placement)) = .ok p) :
    p.slot = slot ∧ p.queue = queue ∧ p.created = false := by
  cases v with
  | error e => cases h
  | ok status =>
    cases h
    exact ⟨rfl, rfl, rfl⟩

/-- The run queue that is chosen takes the report, whatever it is. -/
private theorem placeOnMatching_result
    (hd : a.platform.queues[leastLoaded a.platform first rest]? = some d) :
    (a.placeOnMatching t first rest intruder).result =
      (a.enter t d.slot intruder).result.map fun status =>
        ⟨d.slot, some (leastLoaded a.platform first rest), status, false⟩ := by
  have hplatform := (entered a t d.slot intruder).platform_eq
  simp only [placeOnMatching, Platform.queue_eq hd, afterwards]
  cases hresult : (a.enter t d.slot intruder).result with
  | error e => rfl
  | ok status =>
    simp only [hplatform, Platform.report_eq hd, Platform.andThen]
    rfl

theorem tries_place (hreg : a.platform.Registered) (ht : t.taskClass = .lo)
    (hmatching : a.platform.matching t.taskClass t.strategy = first :: rest)
    (hd : a.platform.queues[leastLoaded a.platform first rest]? = some d) :
    a.Tries t intruder (leastLoaded a.platform first rest) d := by
  have hplaced := placed_place hreg t intruder
  have hresult : (a.place t intruder).result = (a.enter t d.slot intruder).result.map fun status =>
      ⟨d.slot, some (leastLoaded a.platform first rest), status, false⟩ := by
    simp only [place, hmatching, if_neg (not_not.2 ht)]
    exact placeOnMatching_result hd
  rw [enter_result] at hresult
  -- whatever is placed is placed on that slot, and no run queue is made for it
  have hchosen : ∀ p, (a.place t intruder).result = .ok p → p.slot = d.slot ∧
      p.queue = some (leastLoaded a.platform first rest) ∧ p.created = false := by
    intro p hp
    rw [hresult] at hp
    exact chosen_of_map_eq_ok hp
  exact
    { result := hresult
      elsewhere := fun i hi => hplaced.elsewhere fun p hp => (hchosen p hp).1 ▸ hi
      refused := fun e he => hplaced.unchanged he
      unbound := hplaced.unbound fun p hp => (hchosen p hp).2.2 }

/-! ### Every state -/

/-- Whatever has been done before, a task of the low class for which some run queues are hosted tries
one slot: that of the least loaded one of them, and of several such that of the first one.  If the slot
refuses the task for whatever reason, nothing else is tried, and no run queue is made.  Utilizations
are numbers, which can be compared, but for those of run queues that are just as they were
registered; one of these may be passed over. -/
theorem least_loaded (cores : List (Nat × CoreState)) (slots : Nat) (bank : Bank)
    (pending : OrderedMap Nat (List Task)) (steps : List Step) (ht : t.taskClass = .lo)
    (intruder : Option Nat) :
    let a := after { platform := .ofCores cores slots, bank, pending } steps
    (∃ q d, a.platform.Offers t q d) →
      (∃ q d, a.platform.Offers t q d ∧ a.Tries t intruder q d ∧ a.platform.Prefers t q d) ∧
      ∀ d ∈ a.platform.queues, d.utilization.isNaN = true → .operate (.register d) ∈ steps := by
  intro a ⟨q₀, hoffered⟩
  have hstart := Platform.hosting_ofCores cores slots
  have hosting : a.platform.Hosting := hosting_after hstart steps
  constructor
  · cases hmatching : a.platform.matching t.taskClass t.strategy with
    | nil =>
      rw [← Platform.mem_matching_iff, hmatching] at hoffered
      exact absurd hoffered List.not_mem_nil
    | cons first rest =>
      have hmem := leastLoaded_mem a.platform first rest
      rw [← hmatching, Platform.mem_matching_iff] at hmem
      obtain ⟨d, hd⟩ := hmem
      exact ⟨_, d, hd, tries_place hosting.toRegistered ht hmatching hd.queue,
        prefers_leastLoaded hmatching hd⟩
  · intro d hd hnan
    rcases utilization_after hstart hd with hd | hd | hd
    · exact absurd hd List.not_mem_nil
    · exact hd
    · exact absurd (hd.1.symm.trans hnan) Bool.false_ne_true

/-- Of four run queues the last one has no host, and of the others two are equally loaded, one since
a task has been put on it. -/
theorem least_loaded_of_equals :
    let queue : Nat → Float → RunQueue := fun slot utilization =>
      { taskClass := .lo, strategy := .priority, slot, utilization }
    let first : Task := { name := "first", wcet := 1, deadline := 4, interArrival := 4, prio := 1 }
    let second : Task := { first with name := "second", prio := 2 }
    let steps : List Step := [.operate (.register (queue 0 0.5)), .operate (.register (queue 1 0.0)),
      .operate (.register (queue 2 0.25)), .operate (.register (queue 3 0.0)),
      .operate (.change (.allocate 0 0)), .operate (.change (.allocate 1 2)),
      .operate (.change (.allocate 2 1)), .request (.place first none)]
    let a := after { platform := .ofCount 4, bank := ⟨"", 4, List.replicate 4 (.fresh 4)⟩ } steps
    (a.place second).result = .ok ⟨1, some 1, .committed, false⟩ ∧
      ∃ d, a.platform.Offers second 1 d ∧ a.Tries second none 1 d ∧ a.platform.Prefers second 1 d := by
  intro queue first second steps a
  have hplaced : (a.place second).result = .ok ⟨1, some 1, .committed, false⟩ := by decide +kernel
  have hoffered : ∃ q d, a.platform.Offers second q d := by
    have hmem : 0 ∈ a.platform.matching second.taskClass second.strategy := by decide +kernel
    exact ⟨0, Platform.mem_matching_iff.1 hmem⟩
  obtain ⟨⟨q, d, hd, htries, hprefers⟩, -⟩ := least_loaded (t := second) _ 4
    ⟨"", 4, List.replicate 4 (.fresh 4)⟩ .empty steps rfl none hoffered
  -- the answer tells which run queue it is
  obtain rfl : q = 1 := by
    have hqueue := (chosen_of_map_eq_ok (htries.result.symm.trans hplaced)).2.1
    exact (Option.some.inj hqueue).symm
  exact ⟨hplaced, d, hd, htries, hprefers⟩

/-- The second of three run queues has been registered with what is not a number.  It is not beaten
by any, and the task goes to the third one all the same, since the search starts with a number. -/
theorem least_loaded_behind :
    let queue : Nat → Float → RunQueue := fun slot utilization =>
      { taskClass := .lo, strategy := .priority, slot, utilization }
    let t : Task := { name := "t", wcet := 1, deadline := 4, interArrival := 4, prio := 1 }
    let steps : List Step := [.operate (.register (queue 0 1.0)),
      .operate (.register (queue 1 (0.0 / 0.0))), .operate (.register (queue 2 0.5)),
      .operate (.change (.allocate 0 0)), .operate (.change (.allocate 1 1)),
      .operate (.change (.allocate 2 2))]
    let a := after { platform := .ofCount 3, bank := ⟨"", 4, List.replicate 3 (.fresh 4)⟩ } steps
    (a.place t).result = .ok ⟨2, some 2, .committed, false⟩ ∧
      ∃ d, a.platform.Offers t 1 d ∧ a.platform.Unbeaten t d := by
  intro queue t steps a
  have hmem : 1 ∈ a.platform.matching t.taskClass t.strategy := by decide +kernel
  obtain ⟨d, hd⟩ := Platform.mem_matching_iff.1 hmem
  have hnan : (a.platform.queues[1]?.map fun d => d.utilization.isNaN) = some true := by
    decide +kernel
  rw [hd.queue] at hnan
  exact ⟨by decide +kernel, d, hd, fun _ => Platform.not_lt_of_isNaN (Option.some.inj hnan)⟩

end Admission

end RealTime
