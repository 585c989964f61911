import RealTime.Proofs.Admission.Selection

/-! # The core under a task

A run queue for a new task is bound to a core that is active.  A run queue that exists already is
taken whatever has become of its core: the search asks for a host, not for the state of the host.
In either case the placement itself switches no core.

* `Hosting.hostState?_eq`   the state of the one core that hosts a run queue
* `host_placed`             the state of the core that a task comes to -/

namespace RealTime

namespace Platform

variable {p : Platform} {core q : Nat} {c : Core}

/-- The state of the core that hosts a run queue. -/
def hostState? (p : Platform) (q : Nat) : Option CoreState :=
  (p.hostOf? q).bind fun core => (p.cores.get? core).map Core.state

/-- Who hosts a run queue is found, as nobody else does. -/
theorem Hosting.hostOf?_eq (h : p.Hosting) (hc : p.cores.get? core = some c) (hq : q ∈ c.hosted) :
    p.hostOf? q = some core := by
  obtain ⟨found, hfound⟩ := Option.isSome_iff_exists.1 (isSome_hostOf?.2 ⟨core, c, hc, hq⟩)
  obtain ⟨c', hc', hq'⟩ := exists_of_hostOf? hfound
  rw [hfound, h.one_host hc' hc hq' hq]

theorem Hosting.hostState?_eq (h : p.Hosting) (hc : p.cores.get? core = some c)
    (hq : q ∈ c.hosted) : p.hostState? q = some c.state := by
  rw [hostState?, h.hostOf?_eq hc hq, Option.bind_some, hc, Option.map_some]

end Platform

namespace Admission

variable {a : Admission} {t : Task} {p : Placement} {platform platform' : Platform}
  {intruder : Option Nat}

/-- A platform that provides for the choice has the new run queue on an active core, and leaves the
core of any other run queue as it was. -/
theorem Provides.hostState? (h : Provides platform t p platform') (hp : platform.Hosting)
    (hp' : platform'.Hosting) (hchoice : p.created = true ∨
      ∃ q ∈ platform.matching t.taskClass t.strategy, p.queue = some q) :
    ∃ q state, p.queue = some q ∧ platform'.hostState? q = some state ∧
      (p.created = true → state = .active) ∧
      (p.created = false →
        platform.hostState? q = some state ∧ ∃ d, platform.Offers t q d) := by
  cases h with
  -- who has named the slot has left no choice
  | named =>
    rcases hchoice with hcreated | ⟨q, -, hq⟩
    · cases hcreated
    · cases hq
  | @chosen q d status hd =>
    rcases hchoice with hcreated | ⟨i, hmatching, hq⟩
    · cases hcreated
    · cases hq
      obtain ⟨d', hoffers⟩ := Platform.mem_matching_iff.1 hmatching
      obtain ⟨core, c, hc, hhosted⟩ := hoffers.hosted
      -- a report changes no core
      exact ⟨q, c.state, rfl, hp'.hostState?_eq hc hhosted, nofun,
        fun _ => ⟨hp.hostState?_eq hc hhosted, d', hoffers⟩⟩
  | @created core slot c status hc hactive =>
    have hget : (platform.cores.modify core fun c =>
        { c with taskClass := t.taskClass, hosted := c.hosted.insert platform.queues.length }).get?
          core = some { c with
            taskClass := t.taskClass, hosted := c.hosted.insert platform.queues.length } := by
      rw [OrderedMap.get?_modify, if_pos rfl, hc, Option.map_some]
    have hstate := hp'.hostState?_eq hget (OrderedSet.mem_insert.2 (.inl rfl))
    exact ⟨platform.queues.length, c.state, rfl, hstate, fun _ => hactive, nofun⟩

/-- Whatever has been done before, a task that is placed by its class and strategy comes to a run queue
that some core hosts.  A run queue that has been made for it is hosted by an active core.  Any other
one takes such tasks and is hosted by a core in the state in which the core was before. -/
theorem host_placed (cores : List (Nat × CoreState)) (slots : Nat) (bank : Bank)
    (pending : OrderedMap Nat (List Task)) (steps : List Step) (t : Task) (intruder : Option Nat)
    (p : Placement) :
    let a := after { platform := .ofCores cores slots, bank, pending } steps
    (a.place t intruder).result = .ok p →
      ∃ q state, p.queue = some q ∧
        (a.place t intruder).state.platform.hostState? q = some state ∧
        (p.created = true → state = .active) ∧
        (p.created = false →
          a.platform.hostState? q = some state ∧ ∃ d, a.platform.Offers t q d) := by
  intro a hresult
  have hosting : a.platform.Hosting := hosting_after (Platform.hosting_ofCores cores slots) steps
  obtain ⟨-, hchoice⟩ := choice_place hresult
  have hplaced := placed_place hosting.toRegistered t intruder
  obtain ⟨u₀, -, heffects⟩ := hplaced.effects hosting.toRegistered
  have hosting' := (hosting.effects heffects).1
  generalize a.place t intruder = r at *
  cases hplaced with
  | refused => cases hresult
  | placed _ _ hprovides =>
    cases hresult
    exact hprovides.hostState? hosting hosting' hchoice

/-- A task for which there is no run queue gets one on the core that is left. -/
theorem host_placed_new :
    let t : Task := { name := "new", strategy := .deadline, wcet := 1, deadline := 4, interArrival := 4 }
    let steps : List Step := [.operate (.change (.addQueue .lo .priority 0)),
      .operate (.change (.allocate 0 0)), .operate (.change (.setState 1 .off))]
    let a := after { platform := .ofCount 3, bank := ⟨"", 4, List.replicate 3 (.fresh 4)⟩ } steps
    (a.place t).result = .ok ⟨1, some 1, .committed, true⟩ ∧
      (a.place t).state.platform.hostState? 1 = some .active := by
  intro t steps a
  have hplaced : (a.place t).result = .ok ⟨1, some 1, .committed, true⟩ := by decide +kernel
  obtain ⟨q, state, hq, hstate, hcreated, -⟩ := host_placed _ 3
    ⟨"", 4, List.replicate 3 (.fresh 4)⟩ .empty steps t none _ hplaced
  cases hq
  rw [hcreated rfl] at hstate
  exact ⟨hplaced, hstate⟩

/-- A run queue takes tasks although its core has been switched off. -/
theorem host_placed_off :
    let t : Task := { name := "stranded", wcet := 1, deadline := 4, interArrival := 4 }
    let steps : List Step := [.operate (.change (.addQueue .lo .priority 0)),
      .operate (.change (.allocate 0 0)), .operate (.change (.setState 0 .off))]
    let a := after { platform := .ofCount 1, bank := ⟨"", 4, [.fresh 4]⟩ } steps
    ∃ p q, (a.place t).result = .ok p ∧ p.queue = some q ∧
      (a.place t).state.platform.hostState? q ≠ some .active := by
  intro t steps a
  exact ⟨⟨0, some 0, .committed, false⟩, 0, by decide +kernel, rfl, by decide +kernel⟩

end Admission

end RealTime
