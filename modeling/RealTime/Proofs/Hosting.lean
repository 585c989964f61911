import Mathlib.Logic.Relation
import RealTime.Proofs.Platform

/-! # Who hosts what

Cores know which run queues they host, and nothing in a run queue points back.  `Hosting` says that
the two sides fit together all the same: no run queue has two hosts, no slot backs two run queues,
and a core serves the class of whatever it hosts.

All that an operation can do to a platform is one of four effects, or two of them in a row when a
new run queue is bound (`Effect`).  Every property is shown for the effects, and `outcome_operate`
carries it over to the operations.

* `isUtilization_clamp`   what a report leaves is a number and not negative
* `outcome_operate`       an operation fails and changes nothing, or has some effects
* `Hosting.effect`, `retains_of_effect`, `utilization_of_effect`  what an effect keeps
* `hosting_run`           all of this after every sequence of operations -/

namespace RealTime.Platform

/-! ### Operations -/

/-- What can be done to a platform: a change, or the registration of a run queue whose description
may hold any utilization. -/
inductive Operation where
  | register (d : RunQueue)
  | change (change : Change)

/-- Carry out an operation. -/
def operate (p : Platform) : Operation → Except PlatformError (Option Nat) × Platform
  | .register d => andThen (p.addQueue d) fun q p => (.ok (some q), p)
  | .change change => p.step change

/-- Carry out operations, one after the other, whether they fail or not. -/
def run (p : Platform) (ops : List Operation) : Platform := ops.foldl (fun p op => (p.operate op).2) p

/-- The utilization with which an operation registers a run queue, if it does. -/
def Operation.initial : Operation → Float
  | register d => d.utilization
  | change _ => 0.0

/-! ### Utilizations -/

/-- A utilization is a number and not negative. -/
def IsUtilization (u : Float) : Prop := u.isNaN = false ∧ ¬ u < 0.0

theorem isUtilization_zero : IsUtilization 0.0 := by
  unfold IsUtilization
  decide

theorem lt_iff_compare {u v : Float} :
    u < v ↔ u.toModel.unpack.compare v.toModel.unpack = some .lt := by
  show decide (u.toModel.unpack.lt v.toModel.unpack = true) = true ↔ _
  simp [Float.Model.UnpackedFloat.lt]

private theorem unpack_zero : (0.0 : Float).toModel.unpack = .zero .positive := rfl

/-- What is larger than zero is a number. -/
theorem isUtilization_of_pos {u : Float} (h : 0.0 < u) : IsUtilization u := by
  rw [lt_iff_compare, unpack_zero] at h
  rw [IsUtilization, lt_iff_compare, unpack_zero]
  show u.toModel.unpack.isNaN = false ∧ _
  -- zero is less than positive infinity and than positive numbers, and than nothing else
  cases hu : u.toModel.unpack with
  | notANumber =>
    rw [hu] at h
    cases h
  | zero s =>
    rw [hu] at h
    cases h
  | infinity s =>
    rw [hu] at h
    cases s with
    | positive => exact ⟨rfl, nofun⟩
    | negative => cases h
  | finite s m e =>
    rw [hu] at h
    cases s with
    | positive => exact ⟨rfl, nofun⟩
    | negative => cases h

/-- Whatever is reported, what is recorded is a utilization. -/
theorem isUtilization_clamp (u : Float) : IsUtilization (clampUtilization u) := by
  unfold clampUtilization
  split
  · exact isUtilization_of_pos ‹_›
  · exact isUtilization_zero

/-! ### Effects -/

/-- What an operation does to a platform at once.  A run queue is registered with the utilization
`u₀`. -/
inductive Effect (u₀ : Float) (p : Platform) : Platform → Prop
  | registers {d : RunQueue} (hslot : d.slot < p.slots) (hfree : p.usesSlot d.slot = false)
      (hu : d.utilization = u₀) : Effect u₀ p { p with queues := p.queues ++ [d] }
  | hosts {core q : Nat} {c : Core} {d : RunQueue} {f : Core → Core}
      (hc : p.cores.get? core = some c) (hd : p.queues[q]? = some d) (hnone : p.hostOf? q = none)
      (hclass : c.isUnused = true ∨ c.taskClass = d.taskClass)
      (hf : f c = { c with taskClass := d.taskClass, hosted := c.hosted.insert q }) :
      Effect u₀ p (p.modifyCore core f)
  | keepsClass {core : Nat} {c : Core} {f : Core → Core} (hc : p.cores.get? core = some c)
      (hsub : ∀ q ∈ (f c).hosted, q ∈ c.hosted)
      (hclass : ∀ q ∈ (f c).hosted, (f c).taskClass = c.taskClass) :
      Effect u₀ p (p.modifyCore core f)
  | reports {q : Nat} {d : RunQueue} (hd : p.queues[q]? = some d) (utilization : Float) :
      Effect u₀ p { p with
        queues := p.queues.set q { d with utilization := clampUtilization utilization } }

/-- An operation fails and changes nothing, or it has some effects. -/
inductive Outcome {α : Type} (u₀ : Float) (p : Platform) : Except PlatformError α × Platform → Prop
  | fails (e : PlatformError) : Outcome u₀ p (.error e, p)
  | succeeds (a : α) {p' : Platform} (h : Relation.ReflTransGen (Effect u₀) p p') :
      Outcome u₀ p (.ok a, p')

variable {α β : Type} {p p' : Platform} {core slot q : Nat} {c : Core} {d : RunQueue} {u₀ : Float}

/-- Answering something else makes no difference. -/
theorem Outcome.andThen {r : Except PlatformError α × Platform} (h : Outcome u₀ p r) (g : α → β) :
    Outcome u₀ p (Platform.andThen r fun a p => (.ok (g a), p)) := by
  cases h with
  | fails e => exact .fails e
  | succeeds a h => exact .succeeds (g a) h

/-- Nor does looking something up before. -/
theorem Outcome.given {r : Except PlatformError α} {f : α → Except PlatformError β × Platform}
    (h : ∀ a, r = .ok a → Outcome u₀ p (f a)) : Outcome u₀ p (p.given r f) := by
  cases r with
  | ok a => exact h a rfl
  | error e => exact .fails e

theorem outcome_addQueue (p : Platform) (d : RunQueue) : Outcome d.utilization p (p.addQueue d) := by
  unfold addQueue
  split
  · exact .fails _
  · rename_i hslot
    simp only [Bool.or_eq_true, decide_eq_true_eq, not_or, Bool.not_eq_true, Nat.not_le] at hslot
    exact .succeeds _ (.single (.registers hslot.1 hslot.2 rfl))

theorem outcome_allocate (p : Platform) (core q : Nat) : Outcome u₀ p (p.allocate core q) := by
  unfold allocate
  refine Outcome.given fun d hd => ?_
  have hd := getElem?_of_queue hd
  split
  · exact .fails _
  · rename_i hnone
    refine Outcome.given fun c hc => ?_
    have hc := get?_of_core hc
    split
    · exact .succeeds _ (.single (.hosts hc hd hnone (.inl ‹_›) rfl))
    · split
      · exact .fails _
      · -- the class of the core is that of the run queue already
        rename_i hclass
        have hclass := Decidable.not_not.1 hclass
        exact .succeeds _ (.single (.hosts hc hd hnone (.inr hclass) (by rw [← hclass])))

theorem outcome_deallocate (p : Platform) (core q : Nat) :
    Outcome u₀ p (p.deallocate core q) := by
  unfold deallocate
  refine Outcome.given fun c hc => ?_
  split
  · exact .succeeds _ (.single (.keepsClass (get?_of_core hc)
      (fun i hi => (OrderedSet.mem_erase.1 hi).1) fun _ _ => rfl))
  · exact .fails _

theorem not_mem_of_isUnused (h : c.isUnused = true) (q : Nat) : q ∉ c.hosted := by
  rw [Core.isUnused, List.isEmpty_iff] at h
  rw [OrderedSet.mem_iff, h]
  exact List.not_mem_nil

theorem outcome_setClass (p : Platform) (core : Nat) (taskClass : TaskClass) :
    Outcome u₀ p (p.setClass core taskClass) := by
  unfold setClass
  refine Outcome.given fun c hc => ?_
  split
  · rename_i hunused
    exact .succeeds _ (.single (.keepsClass (get?_of_core hc) (fun _ hi => hi)
      fun i hi => absurd hi (not_mem_of_isUnused hunused i)))
  · exact .fails _

theorem outcome_setState (p : Platform) (core : Nat) (state : CoreState) :
    Outcome u₀ p (p.setState core state) := by
  unfold setState
  refine Outcome.given fun c hc => ?_
  exact .succeeds _ (.single (.keepsClass (get?_of_core hc) (fun _ hi => hi) fun _ _ => rfl))

theorem outcome_report (p : Platform) (q : Nat) (utilization : Float) :
    Outcome u₀ p (p.report q utilization) := by
  unfold report
  refine Outcome.given fun d hd => ?_
  exact .succeeds _ (.single (.reports (getElem?_of_queue hd) utilization))

/-- A new run queue is registered and hosted, or neither: once it is registered, nobody hosts it, and
an unused core takes it. -/
theorem Registered.outcome_bindNew (h : p.Registered) (core slot : Nat) (taskClass : TaskClass)
    (strategy : Strategy) : Outcome 0.0 p (p.bindNew core slot taskClass strategy) := by
  cases hcore : p.core core with
  | error e =>
    simp only [Platform.bindNew, given, hcore]
    exact .fails e
  | ok c =>
    have hc := get?_of_core hcore
    by_cases hsize : c.hosted.size > 0
    · simp only [Platform.bindNew, given, hcore, if_pos hsize]
      exact .fails _
    · have hunused : c.isUnused = true :=
        List.isEmpty_iff.2 (List.eq_nil_of_length_eq_zero (Nat.eq_zero_of_not_pos hsize))
      by_cases hslot : slot < p.slots ∧ p.usesSlot slot = false
      · rw [h.bindNew_eq hc hunused hslot.1 hslot.2]
        refine .succeeds _ (.tail (.single
          (.registers (d := { taskClass, strategy, slot }) hslot.1 hslot.2 rfl)) ?_)
        exact .hosts hc List.getElem?_concat_length (h.hostOf?_eq_none (Nat.le_refl _))
          (.inl hunused) rfl
      · -- the slot is refused before the core is touched
        have hrefused : (decide (slot ≥ p.slots) || p.usesSlot slot) = true := by
          rw [Bool.or_eq_true, decide_eq_true_eq]
          rcases Nat.lt_or_ge slot p.slots with hlt | hge
          · exact .inr (by simpa using fun hfree => hslot ⟨hlt, hfree⟩)
          · exact .inl hge
        simp only [Platform.bindNew, given, hcore, if_neg hsize, Platform.addQueue, hrefused,
          if_true, Platform.andThen]
        exact .fails _

theorem Registered.outcome_operate (h : p.Registered) (op : Operation) :
    Outcome op.initial p (p.operate op) := by
  cases op with
  | register d => exact (outcome_addQueue p d).andThen some
  | change change =>
    cases change with
    | addQueue taskClass strategy slot =>
      exact (outcome_addQueue p { taskClass, strategy, slot }).andThen some
    | allocate core q => exact (outcome_allocate p core q).andThen fun _ => none
    | deallocate core q => exact (outcome_deallocate p core q).andThen fun _ => none
    | setClass core taskClass => exact (outcome_setClass p core taskClass).andThen fun _ => none
    | setState core state => exact (outcome_setState p core state).andThen fun _ => none
    | report q utilization => exact (outcome_report p q utilization).andThen fun _ => none
    | bindNew core slot taskClass strategy =>
      exact (h.outcome_bindNew core slot taskClass strategy).andThen some

/-- Whether it fails or not, an operation has some effects. -/
theorem Registered.operate_effects (h : p.Registered) (op : Operation) :
    Relation.ReflTransGen (Effect op.initial) p (p.operate op).2 := by
  have houtcome := h.outcome_operate op
  generalize p.operate op = r at houtcome
  cases houtcome with
  | fails e => exact .refl
  | succeeds a heffects => exact heffects

/-- What every effect keeps, an operation keeps. -/
theorem Outcome.keeps {r : Except PlatformError α × Platform} (h : Outcome u₀ p r)
    {P : Platform → Prop} (hP : ∀ {p p' : Platform}, P p → Effect u₀ p p' → P p') (hp : P p) :
    P r.2 := by
  cases h with
  | fails e => exact hp
  | succeeds a h =>
    induction h with
    | refl => exact hp
    | tail _ heffect ih => exact hP ih heffect

/-- An operation that fails changes nothing. -/
theorem Outcome.unchanged {r : Except PlatformError α × Platform} (h : Outcome u₀ p r)
    {e : PlatformError} (he : r.1 = .error e) : r.2 = p := by
  cases h with
  | fails e => rfl
  | succeeds a h => cases he

/-! ### What stays -/

/-- A platform that has all the run queues of another one, with the numbers, classes, strategies
and slots that they have there. -/
structure Retains (p p' : Platform) : Prop where
  slots_eq : p'.slots = p.slots
  queue : ∀ {q : Nat} {d : RunQueue}, p.queues[q]? = some d →
    ∃ u, p'.queues[q]? = some { d with utilization := u }

theorem Retains.rfl : p.Retains p := ⟨Eq.refl _, fun hd => ⟨_, hd⟩⟩

theorem Retains.trans {p'' : Platform} (h : p.Retains p') (h' : p'.Retains p'') :
    p.Retains p'' := by
  refine ⟨h'.slots_eq.trans h.slots_eq, fun hd => ?_⟩
  obtain ⟨u, hu⟩ := h.queue hd
  obtain ⟨u', hu'⟩ := h'.queue hu
  exact ⟨u', hu'⟩

theorem retains_of_effect (h : Effect u₀ p p') : p.Retains p' := by
  cases h with
  | registers hslot hfree hu =>
    refine ⟨rfl, fun {q d} hd => ⟨d.utilization, ?_⟩⟩
    rwa [List.getElem?_append_left (List.getElem?_eq_some_iff.1 hd).1]
  | hosts => exact ⟨rfl, fun hd => ⟨_, hd⟩⟩
  | keepsClass => exact ⟨rfl, fun hd => ⟨_, hd⟩⟩
  | reports hd utilization =>
    refine ⟨rfl, fun {i e} he => ?_⟩
    simp only [List.getElem?_set]
    split
    · rename_i heq
      subst heq
      rw [hd] at he
      cases he
      exact ⟨_, if_pos (List.getElem?_eq_some_iff.1 hd).1⟩
    · exact ⟨_, he⟩

/-- A run queue is one that was there before, just as it is, or it has a utilization, if run queues
are registered with one. -/
theorem utilization_of_effect (hu : IsUtilization u₀) (h : Effect u₀ p p') (hd : d ∈ p'.queues) :
    d ∈ p.queues ∨ IsUtilization d.utilization := by
  cases h with
  | registers hslot hfree hd₀ =>
    rcases List.mem_append.1 hd with hd | hd
    · exact .inl hd
    · obtain rfl := List.mem_singleton.1 hd
      exact .inr (hd₀ ▸ hu)
  | hosts => exact .inl hd
  | keepsClass => exact .inl hd
  | reports hd₀ utilization =>
    rcases List.mem_or_eq_of_mem_set hd with hd | rfl
    · exact .inl hd
    · exact .inr (isUtilization_clamp utilization)

theorem utilization_of_effects (hu : IsUtilization u₀)
    (heffects : Relation.ReflTransGen (Effect u₀) p p') (hd : d ∈ p'.queues) :
    d ∈ p.queues ∨ IsUtilization d.utilization := by
  induction heffects with
  | refl => exact .inl hd
  | tail _ heffect ih =>
    rcases utilization_of_effect hu heffect hd with hd | hd
    · exact ih hd
    · exact .inr hd

/-! ### Hosts -/

/-- Cores and run queues fit together: a run queue that is hosted is registered, and no other core
hosts it; a core serves the class of what it hosts; and every run queue has a slot of its own. -/
structure Hosting (p : Platform) : Prop extends Registered p where
  one_host : ∀ {i j q : Nat} {c c' : Core}, p.cores.get? i = some c → p.cores.get? j = some c' →
    q ∈ c.hosted → q ∈ c'.hosted → i = j
  class_eq : ∀ {core q : Nat} {c : Core} {d : RunQueue}, p.cores.get? core = some c →
    q ∈ c.hosted → p.queues[q]? = some d → c.taskClass = d.taskClass
  slot_lt : ∀ {q : Nat} {d : RunQueue}, p.queues[q]? = some d → d.slot < p.slots
  slot_inj : ∀ {i j : Nat} {d d' : RunQueue}, p.queues[i]? = some d → p.queues[j]? = some d' →
    d.slot = d'.slot → i = j

theorem hosting_ofCores (cores : List (Nat × CoreState)) (slots : Nat) :
    (ofCores cores slots).Hosting where
  toRegistered := registered_ofCores cores slots
  one_host := by
    intro i j q c c' hc hc' hq hq'
    exact absurd ((registered_ofCores cores slots).lt_length hc q hq) (Nat.not_lt_zero q)
  class_eq := by
    intro core q c d hc hq hd
    exact absurd ((registered_ofCores cores slots).lt_length hc q hq) (Nat.not_lt_zero q)
  slot_lt := nofun
  slot_inj := nofun

/-- A core may change as long as it hosts run queues of its class that no other core hosts. -/
theorem Hosting.modifyCore (h : p.Hosting) {f : Core → Core} (hc : p.cores.get? core = some c)
    (hf : ∀ q ∈ (f c).hosted, (∃ d, p.queues[q]? = some d ∧ (f c).taskClass = d.taskClass) ∧
      ∀ {j : Nat} {c' : Core}, p.cores.get? j = some c' → q ∈ c'.hosted → j = core) :
    (p.modifyCore core f).Hosting := by
  have hget : ∀ {j : Nat} {c' : Core}, (p.modifyCore core f).cores.get? j = some c' →
      j = core ∧ c' = f c ∨ j ≠ core ∧ p.cores.get? j = some c' := by
    intro j c' hj
    simp only [Platform.modifyCore, OrderedMap.get?_modify] at hj
    split at hj
    · rename_i heq
      subst heq
      rw [hc] at hj
      exact .inl ⟨rfl, (Option.some.inj hj).symm⟩
    · exact .inr ⟨‹_›, hj⟩
  refine ⟨?_, ?_, ?_, h.slot_lt, h.slot_inj⟩
  · refine h.toRegistered.modifyCore fun hc' q hq => ?_
    rw [hc] at hc'
    cases hc'
    obtain ⟨⟨d, hd, -⟩, -⟩ := hf q hq
    exact (List.getElem?_eq_some_iff.1 hd).1
  · intro i j q c₁ c₂ hi hj hq hq'
    rcases hget hi with ⟨rfl, rfl⟩ | ⟨hne, hi'⟩ <;> rcases hget hj with ⟨rfl, rfl⟩ | ⟨hne', hj'⟩
    · rfl
    · exact absurd ((hf q hq).2 hj' hq') hne'
    · exact absurd ((hf q hq').2 hi' hq) hne
    · exact h.one_host hi' hj' hq hq'
  · intro j q c' d hj hq hd
    rcases hget hj with ⟨rfl, rfl⟩ | ⟨-, hj⟩
    · obtain ⟨⟨d', hd', hclass⟩, -⟩ := hf q hq
      rw [show p.queues[q]? = some d from hd] at hd'
      cases hd'
      exact hclass
    · exact h.class_eq hj hq hd

/-- A core that `hostOf?` does not find does not host the run queue. -/
theorem not_mem_hosted (hnone : p.hostOf? q = none) (hc : p.cores.get? core = some c) :
    q ∉ c.hosted := by
  rw [hostOf?, Option.map_eq_none_iff, List.find?_eq_none] at hnone
  exact fun hq => hnone _ (OrderedMap.mem_entries_of_get? hc) (decide_eq_true hq)

/-- A slot that is in use backs a run queue. -/
theorem usesSlot_of_getElem? (hd : p.queues[q]? = some d) : p.usesSlot d.slot = true :=
  List.any_eq_true.2 ⟨d, List.mem_of_getElem? hd, beq_self_eq_true _⟩

/-- A new run queue has the next number and is not hosted; its slot is a free one. -/
theorem Hosting.registers (h : p.Hosting) (hslot : d.slot < p.slots)
    (hfree : p.usesSlot d.slot = false) : { p with queues := p.queues ++ [d] }.Hosting := by
  have hget : ∀ {q : Nat} {e : RunQueue}, (p.queues ++ [d])[q]? = some e →
      p.queues[q]? = some e ∨ q = p.queues.length ∧ e = d := by
    intro q e he
    rw [List.getElem?_append] at he
    split at he
    · exact .inl he
    · obtain ⟨hi, rfl⟩ := List.getElem?_eq_some_iff.1 he
      exact .inr ⟨by simp at hi; omega, by simp⟩
  -- whoever backs an old run queue is not free
  have hne : ∀ {q : Nat} {e : RunQueue}, p.queues[q]? = some e → e.slot ≠ d.slot := by
    intro q e he heq
    have := usesSlot_of_getElem? he
    rw [heq, hfree] at this
    cases this
  refine ⟨h.toRegistered.withQueues (by simp), h.one_host, ?_, ?_, ?_⟩
  · intro core q c e hc hq he
    rcases hget he with he | ⟨rfl, rfl⟩
    · exact h.class_eq hc hq he
    · exact absurd (h.lt_length hc _ hq) (Nat.lt_irrefl _)
  · intro q e he
    rcases hget he with he | ⟨rfl, rfl⟩
    · exact h.slot_lt he
    · exact hslot
  · intro i j e e' hi hj heq
    rcases hget hi with hi' | ⟨rfl, rfl⟩ <;> rcases hget hj with hj' | ⟨rfl, rfl⟩
    · exact h.slot_inj hi' hj' heq
    · exact absurd heq (hne hi')
    · exact absurd heq.symm (hne hj')
    · rfl

/-- A report changes neither class nor slot. -/
theorem Hosting.reports (h : p.Hosting) (hd : p.queues[q]? = some d) (u : Float) :
    { p with queues := p.queues.set q { d with utilization := u } }.Hosting := by
  have hget : ∀ {i : Nat} {e : RunQueue},
      (p.queues.set q { d with utilization := u })[i]? = some e →
      ∃ e', p.queues[i]? = some e' ∧ e'.taskClass = e.taskClass ∧ e'.slot = e.slot := by
    intro i e he
    rw [List.getElem?_set] at he
    split at he
    · rename_i heq
      subst heq
      split at he
      · cases he
        exact ⟨d, hd, rfl, rfl⟩
      · cases he
    · exact ⟨e, he, rfl, rfl⟩
  refine ⟨h.toRegistered.withQueues (Nat.le_of_eq List.length_set.symm), h.one_host, ?_, ?_, ?_⟩
  · intro core i c e hc hi he
    obtain ⟨e', he', hclass, -⟩ := hget he
    rw [← hclass]
    exact h.class_eq hc hi he'
  · intro i e he
    obtain ⟨e', he', -, hslot⟩ := hget he
    rw [← hslot]
    exact h.slot_lt he'
  · intro i j e₁ e₂ hi hj heq
    obtain ⟨e₁', hi', -, hslot₁⟩ := hget hi
    obtain ⟨e₂', hj', -, hslot₂⟩ := hget hj
    exact h.slot_inj hi' hj' (by rw [hslot₁, hslot₂, heq])

/-- Cores and run queues still fit together after an effect. -/
theorem Hosting.effect (h : p.Hosting) (he : Effect u₀ p p') : p'.Hosting := by
  cases he with
  | registers hslot hfree hu => exact h.registers hslot hfree
  | @hosts core q c d f hc hd hnone hclass hf =>
    refine h.modifyCore hc ?_
    rw [hf]
    intro i hi
    rcases OrderedSet.mem_insert.1 hi with rfl | hi
    · exact ⟨⟨d, hd, rfl⟩, fun hj hq => absurd hq (not_mem_hosted hnone hj)⟩
    · -- a core that hosted something already was of the class of the run queue
      have hclass : c.taskClass = d.taskClass :=
        hclass.resolve_left fun hunused => not_mem_of_isUnused hunused i hi
      obtain ⟨e, he⟩ : ∃ e, p.queues[i]? = some e :=
        ⟨_, List.getElem?_eq_getElem (h.lt_length hc i hi)⟩
      exact ⟨⟨e, he, hclass.symm.trans (h.class_eq hc hi he)⟩,
        fun hj hq => h.one_host hj hc hq hi⟩
  | @keepsClass core c f hc hsub hclass =>
    refine h.modifyCore hc fun i hi => ?_
    obtain ⟨e, he⟩ : ∃ e, p.queues[i]? = some e :=
      ⟨_, List.getElem?_eq_getElem (h.lt_length hc i (hsub i hi))⟩
    exact ⟨⟨e, he, (hclass i hi).trans (h.class_eq hc (hsub i hi) he)⟩,
      fun hj hq => h.one_host hj hc hq (hsub i hi)⟩
  | reports hd utilization => exact h.reports hd _

/-- They still do after effects one after the other, and run queues stay. -/
theorem Hosting.effects (h : p.Hosting) (heffects : Relation.ReflTransGen (Effect u₀) p p') :
    p'.Hosting ∧ p.Retains p' := by
  induction heffects with
  | refl => exact ⟨h, .rfl⟩
  | tail _ heffect ih => exact ⟨ih.1.effect heffect, ih.2.trans (retains_of_effect heffect)⟩

/-! ### Runs -/

theorem Hosting.run (h : p.Hosting) (ops : List Operation) : (p.run ops).Hosting := by
  induction ops generalizing p with
  | nil => exact h
  | cons op ops ih => exact ih ((h.outcome_operate op).keeps (fun hp he => hp.effect he) h)

theorem Registered.operate (h : p.Registered) (op : Operation) : (p.operate op).2.Registered := by
  cases op with
  | register d => exact Registered.andThen (h.addQueue d) fun hp => hp
  | change change => exact h.step change

theorem Registered.retains_run (h : p.Registered) (ops : List Operation) :
    p.Retains (p.run ops) := by
  induction ops generalizing p with
  | nil => exact .rfl
  | cons op ops ih =>
    have hop : p.Retains (p.operate op).2 := (h.outcome_operate op).keeps (P := p.Retains)
      (fun hp he => hp.trans (retains_of_effect he)) .rfl
    exact hop.trans (ih (h.operate op))

/-- Only a registration brings in a run queue without a utilization, and that is the one that is
registered. -/
theorem Registered.utilization_operate (h : p.Registered) {op : Operation}
    (hd : d ∈ (p.operate op).2.queues) :
    d ∈ p.queues ∨ op = .register d ∨ IsUtilization d.utilization := by
  cases op with
  | register d₀ =>
    simp only [Platform.operate, Platform.addQueue] at hd
    split at hd
    · exact .inl hd
    · rcases List.mem_append.1 hd with hd | hd
      · exact .inl hd
      · obtain rfl := List.mem_singleton.1 hd
        exact .inr (.inl rfl)
  | change change =>
    have heffects := h.operate_effects (.change change)
    exact (utilization_of_effects isUtilization_zero heffects hd).imp_right .inr

theorem Registered.utilization_run (h : p.Registered) {ops : List Operation}
    (hd : d ∈ (p.run ops).queues) :
    d ∈ p.queues ∨ .register d ∈ ops ∨ IsUtilization d.utilization := by
  induction ops generalizing p with
  | nil => exact .inl hd
  | cons op ops ih =>
    rcases ih (h.operate op) hd with hd | hd | hd
    · rcases h.utilization_operate hd with hd | rfl | hd
      · exact .inl hd
      · exact .inr (.inl List.mem_cons_self)
      · exact .inr (.inr hd)
    · exact .inr (.inl (List.mem_cons_of_mem op hd))
    · exact .inr (.inr hd)

/-- After every sequence of operations cores and run queues fit together.  Run queues stay as they
have been registered, whatever comes then, and only their utilizations change.  Those are numbers
that are not negative, but for a run queue that is just as it was registered: a registration takes
any utilization, while a report replaces what is none.  An operation that fails changes nothing. -/
theorem hosting_run (cores : List (Nat × CoreState)) (slots : Nat) (ops : List Operation) :
    let p := (ofCores cores slots).run ops
    p.Hosting ∧ p.slots = slots ∧ (∀ later, p.Retains (p.run later)) ∧
      (∀ d ∈ p.queues, .register d ∈ ops ∨ IsUtilization d.utilization) ∧
      ∀ op e, (p.operate op).1 = .error e → (p.operate op).2 = p := by
  have h₀ := hosting_ofCores cores slots
  have h := h₀.run ops
  refine ⟨h, (h₀.retains_run ops).slots_eq, h.retains_run, fun d hd => ?_, fun op e he => ?_⟩
  · exact (h₀.utilization_run hd).resolve_left List.not_mem_nil
  · exact (h.outcome_operate op).unchanged he

/-- There is one slot, and the run queue that it backs is hosted by the only core.  No run queue can
be registered for the slot any more, and none can be bound to the core. -/
theorem hosting_run_full :
    let ops : List Operation := [.change (.bindNew 0 0 .lo .priority)]
    let p := (ofCount 1).run ops
    p.Hosting ∧ p.hostOf? 0 = some 0 ∧
      (p.operate (.register { taskClass := .lo, strategy := .deadline, slot := 0 })).1 =
        .error (.slotUnavailable 0 1) ∧
      (p.operate (.register { taskClass := .lo, strategy := .deadline, slot := 0 })).2 = p ∧
      (p.operate (.change (.bindNew 0 1 .lo .deadline))).1 = .error (.coreBusy 0 1) ∧
      (p.operate (.change (.bindNew 0 1 .lo .deadline))).2 = p := by
  intro ops p
  obtain ⟨hosting, -, -, -, hfails⟩ := hosting_run [(0, .active)] 1 ops
  have hregister :
      (p.operate (.register { taskClass := .lo, strategy := .deadline, slot := 0 })).1 =
        .error (.slotUnavailable 0 1) := by rfl
  have hbind : (p.operate (.change (.bindNew 0 1 .lo .deadline))).1 = .error (.coreBusy 0 1) := by
    rfl
  exact ⟨hosting, by rfl, hregister, hfails _ _ hregister, hbind, hfails _ _ hbind⟩

/-- A run queue keeps a negative utilization with which it is registered, and one that is not a
number. -/
theorem registered_without_utilization :
    let queue : Nat → Float → RunQueue := fun slot utilization =>
      { taskClass := .lo, strategy := .priority, slot, utilization }
    let p := (ofCount 2).run [.register (queue 0 (-1.0)), .register (queue 1 (0.0 / 0.0))]
    p.queues = [queue 0 (-1.0), queue 1 (0.0 / 0.0)] ∧ (-1.0 : Float) < 0.0 ∧
      (0.0 / 0.0 : Float).isNaN = true ∧ ¬ ∀ d ∈ p.queues, IsUtilization d.utilization := by
  intro queue p
  have hqueues : p.queues = [queue 0 (-1.0), queue 1 (0.0 / 0.0)] := rfl
  have hnegative : (-1.0 : Float) < 0.0 := by decide +kernel
  refine ⟨hqueues, hnegative, by decide +kernel, fun hall => ?_⟩
  rw [hqueues] at hall
  exact (hall _ List.mem_cons_self).2 hnegative

end RealTime.Platform
