import RealTime.Proofs.Admission.Ledger
import RealTime.Proofs.Admission.Origin
import RealTime.Proofs.Hosting

/-! # Tasks and their run queues

A slot is chosen for the class and the strategy of a task: it backs a run queue that takes such
tasks, or a new run queue is bound to it once the task has entered.  The task may wait, the run
queue may move to another core, or lose its core, and the slot writes class and strategy as bytes.
All the same, what is in a slot is what its run queue takes, for no run queue ever leaves its slot
or changes what it takes.

* `choice_place`        an attempt that succeeds takes a matching run queue or makes a new one
* `perform_effects`, `next_effects`  what a request or a step does to the platform
* `hosting_after`, `utilization_after`  what holds of the platform after any steps
* `kind_of_admitted`    one admission
* `Furnished.next`      one step
* `suited_run`          all runs -/

namespace RealTime

namespace Platform

variable {p p' : Platform} {slot q : Nat} {d : RunQueue} {t : Task}

/-- A slot backs one run queue, and this takes a task. -/
def Suits (p : Platform) (slot : Nat) (t : Task) : Prop :=
  ∃ (q : Nat) (d : RunQueue), p.queues[q]? = some d ∧ d.slot = slot ∧
    d.takes t.taskClass t.strategy = true ∧
    ∀ (q' : Nat) (d' : RunQueue), p.queues[q']? = some d' → d'.slot = slot → q' = q

theorem Hosting.suits (h : p.Hosting) (hd : p.queues[q]? = some d) (hslot : d.slot = slot)
    (htakes : d.takes t.taskClass t.strategy = true) : p.Suits slot t :=
  ⟨q, d, hd, hslot, htakes, fun _ _ hd' hslot' => h.slot_inj hd' hd (hslot'.trans hslot.symm)⟩

/-- A slot suits a task for good. -/
theorem Suits.retained (h : p.Suits slot t) (hp' : p'.Hosting) (hretains : p.Retains p') :
    p'.Suits slot t := by
  obtain ⟨q, d, hd, rfl, htakes, -⟩ := h
  obtain ⟨u, hu⟩ := hretains.queue hd
  exact hp'.suits hu rfl htakes

/-- What a slot keeps of a task tells its class and strategy. -/
theorem Suits.image (h : p.Suits slot t) : p.Suits slot t.image := by
  have hclass : t.image.taskClass = t.taskClass := TaskClass.ofCode_code t.taskClass
  have hstrategy : t.image.strategy = t.strategy := Strategy.ofCode_code t.strategy
  rwa [Suits, hclass, hstrategy]

end Platform

namespace Admission

/-! ### Histories -/

/-- What can happen to an admission: a request, or an operation on the platform at any time. -/
inductive Step where
  | request (q : Request)
  | operate (op : Platform.Operation)

/-- Whether a step leaves it to the analysis which tasks enter the queues. -/
def Step.throughAnalysis : Step → Bool
  | .request q => q.throughAnalysis
  | .operate _ => true

/-- The state after a step. -/
def next (a : Admission) : Step → Admission
  | .request q => (a.perform q).2
  | .operate op => { a with platform := (a.platform.operate op).2 }

/-- The state after some steps. -/
def after (a : Admission) (steps : List Step) : Admission := steps.foldl next a

/-- Some step asks to put a task on a slot that it names. -/
def Named (steps : List Step) (slot : Nat) (t : Task) : Prop :=
  ∃ intruder, .request (.placeOn t slot intruder) ∈ steps

/-- A task is of the low class, and the run queue of its slot takes it unless the requester has named
the slot. -/
structure Kind (p : Platform) (steps : List Step) (slot : Nat) (t : Task) : Prop where
  lo : t.taskClass = .lo
  suits : p.Suits slot t ∨ Named steps slot t

variable {a : Admission} {t u : Task} {slot : Nat} {p : Placement} {platform platform' : Platform}
  {intruder : Option Nat} {status : PlacementStatus} {capacity : UInt64} {steps : List Step}
  {ts ws ts' ws' : List Task} {es : List Event} {q : Request}

theorem Kind.retained (h : Kind platform steps slot t) (hp' : platform'.Hosting)
    (hretains : platform.Retains platform') : Kind platform' steps slot t where
  lo := h.lo
  suits := h.suits.imp_left fun hsuits => hsuits.retained hp' hretains

/-! ### The choice of a slot -/

theorem leastLoaded_mem (platform : Platform) (first : Nat) (rest : List Nat) :
    leastLoaded platform first rest ∈ first :: rest := by
  induction rest generalizing first with
  | nil => exact List.mem_singleton_self first
  | cons q rest ih =>
    rw [leastLoaded, List.foldl_cons, ← leastLoaded]
    split
    · exact List.mem_cons_of_mem first (ih q)
    · rcases List.mem_cons.1 (ih first) with heq | hmem
      · exact List.mem_cons.2 (.inl heq)
      · exact List.mem_cons_of_mem first (List.mem_cons_of_mem q hmem)

/-- What goes on after an entry has the last word. -/
theorem result_of_afterwards {α β : Type} {r : Attempt α}
    {f : α → Platform → Except PlatformError β × Platform} {b : β}
    (h : (afterwards r f).result = .ok b) : ∃ a platform, (f a platform).1 = .ok b := by
  simp only [afterwards] at h
  split at h
  · cases h
  · rename_i a _
    refine ⟨a, r.state.platform, ?_⟩
    cases hf : (f a r.state.platform).1 with
    | ok b' =>
      rw [hf] at h
      cases h
      rfl
    | error e =>
      rw [hf] at h
      cases h

theorem result_of_andThen {α β : Type} {r : Except PlatformError α × Platform}
    {f : α → Platform → Except PlatformError β × Platform} {b : β}
    (h : (Platform.andThen r f).1 = .ok b) : ∃ a platform, (f a platform).1 = .ok b := by
  obtain ⟨_ | a, platform⟩ := r
  · cases h
  · exact ⟨a, platform, h⟩

private theorem created_of_placeOnNew (h : (a.placeOnNew t intruder).result = .ok p) :
    p.created = true := by
  simp only [placeOnNew] at h
  split at h
  · cases h
  · split at h
    · cases h
    · obtain ⟨status, platform, h⟩ := result_of_afterwards h
      obtain ⟨q, platform, h⟩ := result_of_andThen h
      obtain ⟨-, platform, h⟩ := result_of_andThen h
      cases h
      rfl

private theorem queue_of_placeOnMatching {first : Nat} {rest : List Nat}
    (h : (a.placeOnMatching t first rest intruder).result = .ok p) :
    p.queue = some (leastLoaded a.platform first rest) := by
  simp only [placeOnMatching] at h
  split at h
  · cases h
  · obtain ⟨status, platform, h⟩ := result_of_afterwards h
    obtain ⟨-, platform, h⟩ := result_of_andThen h
    cases h
    rfl

/-- An attempt to place a task by its class and strategy that succeeds takes a run queue that matches
them, or makes a new one. -/
theorem choice_place (h : (a.place t intruder).result = .ok p) :
    t.taskClass = .lo ∧ (p.created = true ∨
      ∃ q ∈ a.platform.matching t.taskClass t.strategy, p.queue = some q) := by
  simp only [place] at h
  split at h
  · cases h
  · rename_i hclass
    refine ⟨Decidable.not_not.1 hclass, ?_⟩
    split at h
    · exact .inl (created_of_placeOnNew h)
    · rename_i hmatching
      rw [hmatching]
      exact .inr ⟨_, leastLoaded_mem .., queue_of_placeOnMatching h⟩

/-- An attempt to place a task on a named slot that succeeds puts it there. -/
theorem choice_placeOn (h : (a.placeOn t slot intruder).result = .ok p) :
    t.taskClass = .lo ∧ p.slot = slot := by
  simp only [placeOn] at h
  split at h
  · cases h
  · rename_i hclass
    refine ⟨Decidable.not_not.1 hclass, ?_⟩
    split at h
    · cases h
    · obtain ⟨status, platform, h⟩ := result_of_afterwards h
      cases h
      rfl

/-- A platform that provides for the choice suits the task. -/
theorem Provides.suits (h : Provides platform t p platform') (hp' : platform'.Hosting)
    (hchoice : p.created = true ∨
      ∃ q ∈ platform.matching t.taskClass t.strategy, p.queue = some q) :
    platform'.Suits p.slot t := by
  cases h with
  -- who has named the slot has left no choice
  | named =>
    rcases hchoice with hcreated | ⟨q, -, hq⟩
    · cases hcreated
    · cases hq
  | @chosen q d _ hd =>
    rcases hchoice with hcreated | ⟨q, hmatching, hq⟩
    · cases hcreated
    · cases hq
      obtain ⟨d', hd', htakes⟩ := Platform.exists_of_mem_matching hmatching
      cases hd.symm.trans hd'
      obtain ⟨hlt, -⟩ := List.getElem?_eq_some_iff.1 hd
      exact hp'.suits (List.getElem?_set_self hlt) rfl htakes
  | created =>
    refine hp'.suits List.getElem?_concat_length rfl ?_
    simp only [RunQueue.takes, decide_true, Bool.and_self]

/-! ### What requests do to the platform -/

theorem Provides.effects (h : Provides platform t p platform') (hreg : platform.Registered) :
    ∃ u₀, Platform.IsUtilization u₀ ∧
      Relation.ReflTransGen (Platform.Effect u₀) platform platform' := by
  cases h with
  | named => exact ⟨0.0, Platform.isUtilization_zero, .refl⟩
  | chosen hd => exact ⟨0.0, Platform.isUtilization_zero, .single (.reports hd _)⟩
  | @created core slot c _ hc _ hunused hslot hfree =>
    -- the new run queue has the next number, which nobody hosts
    have hnone : ∀ queues, Platform.hostOf? { platform with queues } platform.queues.length = none :=
      fun _ => hreg.hostOf?_eq_none (Nat.le_refl _)
    refine ⟨Platform.clampUtilization t.utilization, Platform.isUtilization_clamp _,
      .tail (.single (.registers (d := ⟨t.taskClass, t.strategy, slot, _⟩) hslot hfree rfl)) ?_⟩
    exact .hosts hc List.getElem?_concat_length (hnone _) (.inl hunused) rfl

theorem Placed.effects {r : Attempt Placement} (h : Placed a t r) (hreg : a.platform.Registered) :
    ∃ u₀, Platform.IsUtilization u₀ ∧
      Relation.ReflTransGen (Platform.Effect u₀) a.platform r.state.platform := by
  cases h with
  | refused => exact ⟨0.0, Platform.isUtilization_zero, .refl⟩
  | placed _ _ hprovides => exact hprovides.effects hreg

theorem flush_platform (a : Admission) (slot : Nat) (intruder : Option Nat) :
    (a.flush slot intruder).2.platform = a.platform := by
  simp only [Admission.flush]
  split
  · split <;> rfl
  · split <;> rfl

/-- Whatever is asked, the platform undergoes some effects. -/
theorem perform_effects (hreg : a.platform.Registered) (q : Request) :
    ∃ u₀, Platform.IsUtilization u₀ ∧
      Relation.ReflTransGen (Platform.Effect u₀) a.platform (a.perform q).2.platform := by
  cases q with
  | place t intruder =>
    simp only [perform, replyTo_state]
    exact (placed_place hreg t intruder).effects hreg
  | placeOn t slot intruder =>
    simp only [perform, replyTo_state]
    exact (placed_placeOn a t slot intruder).effects hreg
  | flush slot intruder =>
    rw [perform_flush, flush_platform]
    exact ⟨0.0, Platform.isUtilization_zero, .refl⟩
  | enqueue slot t =>
    simp only [perform, onBank_state]
    exact ⟨0.0, Platform.isUtilization_zero, .refl⟩
  | dequeue slot =>
    simp only [perform, onBank_state]
    exact ⟨0.0, Platform.isUtilization_zero, .refl⟩
  | lock slot =>
    simp only [perform, onBank_state]
    exact ⟨0.0, Platform.isUtilization_zero, .refl⟩
  | unlock slot => exact ⟨0.0, Platform.isUtilization_zero, .refl⟩
  | change change =>
    rw [perform_change]
    exact ⟨_, Platform.isUtilization_zero, hreg.operate_effects (.change change)⟩

/-- So it does by every step. -/
theorem next_effects (hreg : a.platform.Registered) (s : Step) :
    ∃ u₀, Relation.ReflTransGen (Platform.Effect u₀) a.platform (a.next s).platform := by
  cases s with
  | request q =>
    obtain ⟨u₀, -, heffects⟩ := perform_effects hreg q
    exact ⟨u₀, heffects⟩
  | operate op => exact ⟨op.initial, hreg.operate_effects op⟩

/-- Only a registration brings in a run queue without a utilization. -/
theorem utilization_next {d : RunQueue} {s : Step} (hreg : a.platform.Registered)
    (hd : d ∈ (a.next s).platform.queues) :
    d ∈ a.platform.queues ∨ s = .operate (.register d) ∨
      Platform.IsUtilization d.utilization := by
  cases s with
  | request q =>
    obtain ⟨u₀, hu, heffects⟩ := perform_effects hreg q
    exact (Platform.utilization_of_effects hu heffects hd).imp_right .inr
  | operate op =>
    rcases hreg.utilization_operate hd with hd | rfl | hd
    · exact .inl hd
    · exact .inr (.inl rfl)
    · exact .inr (.inr hd)

/-- Cores and run queues fit together after any steps. -/
theorem hosting_after (h : a.platform.Hosting) (steps : List Step) :
    (a.after steps).platform.Hosting := by
  induction steps generalizing a with
  | nil => exact h
  | cons s steps ih =>
    obtain ⟨u₀, heffects⟩ := next_effects h.toRegistered s
    exact ih (h.effects heffects).1

/-- A run queue has a utilization then, unless it is just as it was registered. -/
theorem utilization_after {d : RunQueue} (h : a.platform.Hosting)
    (hd : d ∈ (a.after steps).platform.queues) :
    d ∈ a.platform.queues ∨ .operate (.register d) ∈ steps ∨
      Platform.IsUtilization d.utilization := by
  induction steps generalizing a with
  | nil => exact .inl hd
  | cons s steps ih =>
    obtain ⟨u₀, heffects⟩ := next_effects h.toRegistered s
    rcases ih (h.effects heffects).1 hd with hd | hd | hd
    · rcases utilization_next h.toRegistered hd with hd | rfl | hd
      · exact .inl hd
      · exact .inr (.inl List.mem_cons_self)
      · exact .inr (.inr hd)
    · exact .inr (.inl (List.mem_cons_of_mem s hd))
    · exact .inr (.inr hd)

/-! ### Admissions -/

/-- Only the answer that a task is placed tells of an admission. -/
theorem placed_of_mem_admissionOf {r : Attempt Placement} {e : Event}
    (he : e ∈ admissionOf t (replyTo r).1) :
    ∃ p, r.result = .ok p ∧ e = ⟨p.slot, t, .admitted p.status⟩ := by
  cases hresult : r.result with
  | ok p =>
    simp only [replyTo, hresult, admissionOf, eventsAt, List.map_singleton,
      List.mem_singleton] at he
    exact ⟨p, rfl, he⟩
  | error e => simp [replyTo, hresult, admissionOf] at he

/-- A task that is admitted is of the kind of the slot. -/
theorem kind_of_admitted (h : a.platform.Hosting) (hq : .request q ∈ steps)
    (he : ⟨slot, t, .admitted status⟩ ∈ eventsOf a q) :
    Kind (a.perform q).2.platform steps slot t := by
  obtain ⟨u₀, -, heffects⟩ := perform_effects h.toRegistered q
  have hp' := (h.effects heffects).1
  cases q with
  | place u intruder =>
    obtain ⟨p, hresult, heq⟩ := placed_of_mem_admissionOf he
    cases heq
    obtain ⟨hclass, hchoice⟩ := choice_place hresult
    refine ⟨hclass, .inl ?_⟩
    have hplaced := placed_place h.toRegistered t intruder
    simp only [perform, replyTo_state] at hp' ⊢
    generalize a.place t intruder = r at *
    cases hplaced with
    | refused => cases hresult
    | placed _ _ hprovides =>
      cases hresult
      exact hprovides.suits hp' hchoice
  | placeOn u slot' intruder =>
    obtain ⟨p, hresult, heq⟩ := placed_of_mem_admissionOf he
    cases heq
    obtain ⟨hclass, rfl⟩ := choice_placeOn hresult
    exact ⟨hclass, .inr ⟨intruder, hq⟩⟩
  | flush => cases fate_of_mem_eventsAt he
  | dequeue =>
    rw [eventsOf_dequeue] at he
    cases fate_of_mem_eventsAt he
  | enqueue => cases he
  | lock => cases he
  | unlock => cases he
  | change => cases he

theorem mem_pick {fates : Fate → Bool} :
    t ∈ pick es slot fates ↔ ∃ fate, fates fate = true ∧ ⟨slot, t, fate⟩ ∈ es := by
  simp only [pick, List.mem_map, List.mem_filter, Bool.and_eq_true, decide_eq_true_eq]
  constructor
  · rintro ⟨⟨slot', t', fate⟩, ⟨he, rfl, hfate⟩, rfl⟩
    exact ⟨fate, hfate, he⟩
  · rintro ⟨fate, hfate, he⟩
    exact ⟨_, ⟨he, rfl, hfate⟩, rfl⟩

/-- If the tasks of a slot are of some kind, and those that are admitted as well, then all that the
slot has afterwards are. -/
theorem Accounts.forall_mem {P : Task → Prop} (h : Accounts es slot ts ws ts' ws')
    (hts : ∀ t ∈ ts, ImageOf P t) (hws : ∀ t ∈ ws, P t)
    (hadmitted : ∀ status t, ⟨slot, t, .admitted status⟩ ∈ es → P t) :
    (∀ t ∈ ts', ImageOf P t) ∧ ∀ t ∈ ws', P t := by
  -- who has waited was among the waiting ones or has been admitted to them
  have hwaited : ∀ t ∈ pick es slot (· = .flushed) ++ ws', P t := by
    intro t ht
    rw [← h.waiting] at ht
    rcases List.mem_append.1 ht with ht | ht
    · exact hws t ht
    · obtain ⟨fate, hfate, he⟩ := mem_pick.1 ht
      cases of_decide_eq_true hfate
      exact hadmitted _ t he
  refine ⟨fun t ht => ?_, fun t ht => hwaited t (List.mem_append_right _ ht)⟩
  have ht' := List.mem_append_right (pick es slot (· = .left)) ht
  rw [h.queued] at ht'
  rcases List.mem_append.1 ht' with ht' | ht'
  · exact hts t ht'
  · obtain ⟨u, hu, rfl⟩ := List.mem_map.1 ht'
    obtain ⟨fate, hcommits, he⟩ := mem_pick.1 hu
    refine ⟨u, ?_, rfl⟩
    cases fate with
    | admitted status => exact hadmitted status u he
    | flushed =>
      exact hwaited u (List.mem_append_left _ (mem_pick.2 ⟨.flushed, decide_eq_true rfl, he⟩))
    | left => cases hcommits

/-! ### Runs -/

/-- A slot has queued tasks `ts` and waiting tasks `ws` of its kind, and the platform hosts its run
queues well. -/
structure Furnished (a : Admission) (steps : List Step) (capacity : UInt64) (slot : Nat)
    (ts ws : List Task) : Prop where
  hosting : a.platform.Hosting
  stores : a.Stores capacity slot ts ws
  queued : ∀ t ∈ ts, ImageOf (Kind a.platform steps slot) t
  waiting : ∀ t ∈ ws, Kind a.platform steps slot t

/-- No step brings a task of another kind to a slot. -/
theorem Furnished.next (h : a.Furnished steps capacity slot ts ws) {s : Step} (hs : s ∈ steps)
    (hanalysed : s.throughAnalysis = true) :
    ∃ ts' ws', (a.next s).Furnished steps capacity slot ts' ws' := by
  obtain ⟨u₀, heffects⟩ := next_effects h.hosting.toRegistered s
  obtain ⟨hp', hretains⟩ := h.hosting.effects heffects
  -- what a slot has already, its run queue still takes after the step
  have hwaiting : ∀ t ∈ ws, Kind (a.next s).platform steps slot t :=
    fun t ht => (h.waiting t ht).retained hp' hretains
  have hqueued : ∀ t ∈ ts, ImageOf (Kind (a.next s).platform steps slot) t :=
    fun t ht => (h.queued t ht).mono (fun _ hu => hu.retained hp' hretains)
  cases s with
  | request q =>
    obtain ⟨ts', ws', hstores, haccounts⟩ := h.stores.perform h.hosting.toRegistered hanalysed
    obtain ⟨hqueued', hwaiting'⟩ := haccounts.forall_mem hqueued hwaiting
      fun _ _ he => kind_of_admitted h.hosting hs he
    exact ⟨ts', ws', hp', hstores, hqueued', hwaiting'⟩
  | operate op => exact ⟨ts, ws, hp', h.stores.withPlatform _, hqueued, hwaiting⟩

theorem Furnished.after {all : List Step} (h : a.Furnished all capacity slot ts ws)
    (hall : ∀ s ∈ steps, s ∈ all ∧ s.throughAnalysis = true) :
    ∃ ts' ws', (a.after steps).Furnished all capacity slot ts' ws' := by
  induction steps generalizing a ts ws with
  | nil => exact ⟨ts, ws, h⟩
  | cons s steps ih =>
    obtain ⟨⟨hs, hanalysed⟩, hsteps⟩ := List.forall_mem_cons.1 hall
    obtain ⟨ts₁, ws₁, hfirst⟩ := h.next hs hanalysed
    exact ih hfirst hsteps

/-- An attempt to place a task of another class is refused and changes nothing. -/
theorem perform_place_of_ne_lo (a : Admission) (ht : t.taskClass ≠ .lo) (intruder : Option Nat) :
    a.perform (.place t intruder) = (.refused (.unsupportedClass t.name t.taskClass) false, a) := by
  simp only [perform, place, if_pos ht, replyTo]

theorem perform_placeOn_of_ne_lo (a : Admission) (ht : t.taskClass ≠ .lo) (slot : Nat)
    (intruder : Option Nat) : a.perform (.placeOn t slot intruder) =
      (.refused (.unsupportedClass t.name t.taskClass) false, a) := by
  simp only [perform, placeOn, if_pos ht, replyTo]

/-- In every run on a new bank, whatever is done to the platform before and meanwhile, all tasks of a
slot, queued or waiting, are of the low class, and the one run queue that the slot backs is for tasks
of their class and strategy.  Only tasks for which a requester has named the slot need not be what
its run queue is for.  Attempts to place a task of the high class are refused and change nothing. -/
theorem suited_run {tree : FileTree} {directory : String} {count : Nat} {bank : Bank}
    (hcreate : Bank.create tree directory count capacity = .ok bank)
    (cores : List (Nat × CoreState)) (slots : Nat) (ops : List Platform.Operation)
    (steps : List Step) (hsteps : ∀ s ∈ steps, s.throughAnalysis = true) (hslot : slot < count) :
    let a := after { platform := (Platform.ofCores cores slots).run ops, bank } steps
    (∃ r ts, a.bank.queues[slot]? = some r ∧ r.Holds capacity ts ∧ r.contents capacity = .ok ts ∧
      a.tasksOn slot = ts ++ a.pendingOn slot ∧
      ∀ t ∈ ts ++ a.pendingOn slot, t.taskClass = .lo ∧
        (a.platform.Suits slot t ∨ ∃ u, Named steps slot u ∧ (t = u ∨ t = u.image))) ∧
    ∀ t intruder, t.taskClass = .hi →
      a.perform (.place t intruder) = (.refused (.unsupportedClass t.name .hi) false, a) ∧
      ∀ slot, a.perform (.placeOn t slot intruder) =
        (.refused (.unsupportedClass t.name .hi) false, a) := by
  intro a
  have hstart : Furnished { platform := (Platform.ofCores cores slots).run ops, bank } steps
      capacity slot [] [] :=
    ⟨(Platform.hosting_ofCores cores slots).run ops, stores_of_create hcreate rfl hslot, nofun, nofun⟩
  obtain ⟨ts, ws, h⟩ := hstart.after fun s hs => ⟨hs, hsteps s hs⟩
  refine ⟨?tasks, ?refused⟩
  case tasks =>
    obtain ⟨r, hr, hholds⟩ := h.stores.region
    rw [h.stores.pendingOn_eq]
    refine ⟨r, ts, hr, hholds, hholds.contents_eq, h.stores.tasksOn_eq, fun t ht => ?_⟩
    rcases List.mem_append.1 ht with ht | ht
    · obtain ⟨u, hu, rfl⟩ := h.queued t ht
      refine ⟨(TaskClass.ofCode_code u.taskClass).trans hu.lo, ?_⟩
      exact hu.suits.imp Platform.Suits.image fun hnamed => ⟨u, hnamed, .inr rfl⟩
    · have hkind := h.waiting t ht
      exact ⟨hkind.lo, hkind.suits.imp_right fun hnamed => ⟨t, hnamed, .inl rfl⟩⟩
  case refused =>
    intro t intruder hclass
    have ht : t.taskClass ≠ .lo := by
      rw [hclass]
      decide
    rw [perform_place_of_ne_lo a ht, hclass]
    refine ⟨rfl, fun slot => ?_⟩
    rw [perform_placeOn_of_ne_lo a ht, hclass]

/-- The second task waits while the run queue of its slot moves to another core. -/
theorem suited_moved_queue :
    let first : Task := { name := "first", wcet := 1, deadline := 10, interArrival := 10, prio := 1 }
    let second : Task := { first with name := "second", prio := 2 }
    ∃ bank, Bank.create ⟨[]⟩ "" 2 4 = .ok bank ∧
      let ops : List Platform.Operation :=
        [.register { taskClass := .hi, strategy := .priority, slot := 1, utilization := 0.5 }]
      let steps : List Step := [.request (.place first none), .request (.place second (some 0)),
        .operate (.change (.deallocate 0 1)), .operate (.change (.allocate 1 1)),
        .request (.unlock 0), .request (.flush 0 none)]
      let a := after
        { platform := (Platform.ofCores [(0, .active), (1, .active)] 2).run ops, bank } steps
      a.platform.hostOf? 1 = some 1 ∧ a.tasksOn 0 = [first.image, second.image] ∧
        ∀ t ∈ a.tasksOn 0, t.taskClass = .lo ∧ a.platform.Suits 0 t := by
  intro first second
  have hcreate : Bank.create ⟨[]⟩ "" 2 4 = .ok ⟨"", 4, [.fresh 4, .fresh 4]⟩ := by rfl
  refine ⟨_, hcreate, ?_⟩
  intro ops steps a
  obtain ⟨⟨r, ts, -, -, -, htasks, hsuits⟩, -⟩ :=
    suited_run hcreate [(0, .active), (1, .active)] 2 ops steps (by decide) (show 0 < 2 by decide)
  refine ⟨by decide +kernel, by decide +kernel, fun t ht => ?_⟩
  rw [htasks] at ht
  obtain ⟨hlo, hsuits⟩ := hsuits t ht
  -- no step names a slot
  exact ⟨hlo, hsuits.resolve_right (by simp [Named, steps])⟩

end Admission

end RealTime
