import RealTime.Proofs.Admission.Origin
import RealTime.Proofs.Arbiter.Agree
import RealTime.Proofs.Supervisor.Reachable

/-! # Names in queues and names that the arbiter knows

A task that is admitted is stored twice: a slot keeps an image of it, with the name cut to the
room of the slot, and the arbiter keeps a record under the full name.  If tasks enter the queues
by admission only, whatever is found in a queue is the image of a task whose full name the
arbiter knows from then on, because it supervises the task or remembers how it has ended.  So
names for which a slot has room are the same on both sides, and longer ones are not.

* `invariant_knows`         the arbiter forgets no name
* `Accountable.perform`     one request
* `names_agree`             after every history of requests
* `names_differ`            a name that is one octet too long -/

namespace RealTime

/-! ### Names that the arbiter knows -/

namespace Arbiter

/-- The arbiter supervises a task of this name or remembers how it has ended. -/
def Knows (a : Arbiter) (name : String) : Prop :=
  a.tasks.contains name = true ∨ a.ended.contains name = true

/-- The arbiter has an answer for the task of a name: whether it permits the next job, or how the
task has ended. -/
def Answers (a : Arbiter) (name : String) : Prop :=
  (∃ r, a.tasks.get? name = some r ∧ a.isAllowed name = .ok r.allowed) ∨
    ∃ how, a.ended.get? name = some how ∧
      a.isAllowed name = .error (.notTracked name (some how.cause))

variable {a : Arbiter} {name : String}

/-- There is an answer for the names that the arbiter knows. -/
theorem Knows.answers (h : a.Knows name) : a.Answers name := by
  cases hr : a.tasks.get? name with
  | some r => exact .inl ⟨r, hr, by rw [isAllowed, hr]⟩
  | none =>
    have hended := h.resolve_left fun hin => by
      rw [OrderedMap.contains_eq_false_iff.2 hr] at hin
      cases hin
    obtain ⟨how, hhow⟩ := OrderedMap.contains_iff.1 hended
    refine .inr ⟨how, hhow, ?_⟩
    rw [isAllowed, hr, notTracked, hhow]
    rfl

/-- A task that leaves is remembered, and the others stay known. -/
private theorem Knows.forget (h : a.Knows name) (other : String) (e : Ended) :
    (a.forget other e).Knows name := by
  rw [Knows, OrderedMap.contains, OrderedMap.contains, get?_forget, get?_ended_forget]
  split
  · right
    cases a.ended.get? other <;> rfl
  · rw [Option.isSome_map]
    exact h

/-- The arbiter forgets no name. -/
theorem invariant_knows (name : String) : Invariant (Knows · name) where
  kept := fun hk h => by rwa [Knows, hk.contains, hk.ended]
  add := fun {a core t} hcore hnew h => by
    simp only [Knows, add_of_new hcore hnew, OrderedMap.contains, OrderedMap.get?_insert,
      OrderedMap.get?_erase]
    split
    · exact .inl rfl
    · exact h
  blame := fun {a n cause} _ _ _ h => by
    rwa [Knows, (agree_blame calm_supervised a n cause).contains, ended_blame]
  leave := fun {a n r} e _ h => by
    have hleft := agree_leaveGroup (n := name) (fun _ _ => rfl) (f := fun _ : Record => ())
      (a.forget n e) n r
    rw [Knows, hleft.contains, ended_leaveGroup]
    exact h.forget n e

/-- Whatever comes of it, a task that has been added on a core that there is is known. -/
theorem knows_add {core : Nat} {t : Task} (hcore : core < a.cores) :
    (a.add core t).2.Knows t.name := by
  cases hin : a.tasks.contains t.name with
  | true =>
    have hrefused : (a.add core t).2 = a := by
      simp only [add, ge_iff_le, if_neg (Nat.not_le.2 hcore), hin, if_true]
    rw [hrefused]
    exact .inl hin
  | false =>
    left
    rw [add_of_new hcore hin, OrderedMap.contains, OrderedMap.get?_insert, if_pos rfl]
    rfl

end Arbiter

namespace Supervisor

/-- Whether a request leaves it to admission which tasks enter the queues. -/
def Request.throughAdmission : Request → Bool
  | .enqueue .. => false
  | _ => true

theorem Request.throughAnalysis_of_throughAdmission {q : Request} {request : Admission.Request}
    (hq : q.throughAdmission = true) (h : q.ofAdmission? = some request) :
    request.throughAnalysis = true ∧ request.task? = none := by
  cases q with
  | enqueue => cases hq
  | flush | dequeue | lock | unlock =>
    cases h
    exact ⟨rfl, rfl⟩
  | _ => cases h

/-- Some requests ask for the admission of a task. -/
def Requested (rs : List Request) (t : Task) : Prop :=
  ∃ slot intruder, .newTask t slot intruder ∈ rs

/-- Answer several requests, one after the other. -/
def run (s : Supervisor) (rs : List Request) : Supervisor :=
  rs.foldl (fun s q => (s.perform q).2) s

/-- The tasks in queues and the waiting ones are of some kind, and the arbiter knows them by name. -/
structure Accountable (P : Task → Prop) (s : Supervisor) : Prop where
  sound : s.Sound
  only : s.admission.Only fun t => P t ∧ s.arbiter.Knows t.name

variable {s : Supervisor} {P : Task → Prop} {t : Task} {slot : Nat}

/-- A task that has been placed is known, and one that has been refused is nowhere. -/
private theorem Accountable.newTask (h : Accountable P s) (ht : P t) (slot intruder : Option Nat)
    (hknows : ∀ name, s.arbiter.Knows name → (s.newTask t slot intruder).2.arbiter.Knows name) :
    (s.newTask t slot intruder).2.admission.Only fun u =>
      P u ∧ (s.newTask t slot intruder).2.arbiter.Knows u.name := by
  have hbefore := h.only.mono fun u hu => And.intro hu.1 (hknows u.name hu.2)
  have hplaced := placed_attempt h.sound.registered t slot intruder
  rw [newTask_eq] at hbefore ⊢
  split
  · exact h.only
  · rename_i hnew
    rw [if_neg hnew] at hbefore
    cases hresult : (s.attempt t slot intruder).result with
    | error e =>
      rw [hresult] at hbefore
      refine hbefore.placed hplaced fun p heq => ?_
      rw [hresult] at heq
      cases heq
    | ok p =>
      rw [hresult] at hbefore
      refine hbefore.placed hplaced fun _ _ => ⟨ht, Arbiter.knows_add ?_⟩
      exact h.sound.count_eq ▸ hplaced.lt_count hresult

/-- What one request adds to queues and waiting tasks, it tells the arbiter. -/
theorem Accountable.perform (h : Accountable P s) {q : Request} (hq : q.throughAdmission = true)
    (hP : ∀ t slot intruder, q = .newTask t slot intruder → P t) :
    Accountable P (s.perform q).2 := by
  have hknows : ∀ name, s.arbiter.Knows name → (s.perform q).2.arbiter.Knows name :=
    fun name hn => (Arbiter.invariant_knows name).supervise hn q
  refine ⟨h.sound.perform q, ?_⟩
  by_cases hnew : ∃ t slot intruder, q = .newTask t slot intruder
  · obtain ⟨t, slot, intruder, rfl⟩ := hnew
    exact h.newTask (hP t slot intruder rfl) slot intruder hknows
  · have hbefore := h.only.mono fun u hu => And.intro hu.1 (hknows u.name hu.2)
    rw [perform_admission s fun t slot intruder heq => hnew ⟨t, slot, intruder, heq⟩]
    cases hrequest : q.ofAdmission? with
    | none => exact hbefore
    | some request =>
      obtain ⟨hthrough, hnone⟩ := Request.throughAnalysis_of_throughAdmission hq hrequest
      refine hbefore.perform h.sound.registered hthrough fun t ht => ?_
      rw [hnone] at ht
      cases ht

theorem Accountable.run (h : Accountable P s) {rs : List Request}
    (hrs : ∀ q ∈ rs, q.throughAdmission = true) (hP : ∀ t, Requested rs t → P t) :
    Accountable P (run s rs) := by
  induction rs generalizing s with
  | nil => exact h
  | cons q rs ih =>
    obtain ⟨hq, hrs⟩ := List.forall_mem_cons.1 hrs
    have hfirst := h.perform hq fun t slot intruder heq =>
      hP t ⟨slot, intruder, heq ▸ List.mem_cons_self⟩
    refine ih hfirst hrs fun t ht => hP t ?_
    obtain ⟨slot, intruder, hmem⟩ := ht
    exact ⟨slot, intruder, List.mem_cons_of_mem q hmem⟩

/-- A supervisor starts without tasks. -/
theorem accountable_fresh (h : Fresh s) : Accountable P s := by
  refine ⟨sound_of_fresh h, ?_⟩
  obtain ⟨hcreate, cores, slots, ops⟩ := h
  exact ⟨Bank.shows_of_create hcreate, fun t ht => absurd ht List.not_mem_nil⟩

/-! ### What a slot shows -/

/-- A task is found in the queue of a slot: it is the next one to leave, or it is listed. -/
inductive Finds (s : Supervisor) (slot : Nat) (t : Task) : Prop
  | leaves (h : (s.perform (.dequeue slot)).1 = .admission (.task t))
  | listed {ts : List Task} (h : (s.admission.bank.list slot).1 = .ok ts) (ht : t ∈ ts)

theorem dequeue_of_reply (h : (s.perform (.dequeue slot)).1 = .admission (.task t)) :
    (s.admission.bank.dequeue slot).1 = .ok t := by
  simp only [Supervisor.perform, toAdmission, Admission.perform, Admission.onBank] at h
  split at h
  · rename_i heq
    cases h
    rw [heq]
  · cases h

/-- What is found in a queue is what a slot keeps of a task. -/
theorem Accountable.imageOf (h : Accountable P s) (hfinds : Finds s slot t) :
    ImageOf (fun u => P u ∧ s.arbiter.Knows u.name) t := by
  cases hfinds with
  | leaves hreply => exact (h.only.queued.dequeue slot).1 t (dequeue_of_reply hreply)
  | listed hlist ht => exact h.only.queued.listed hlist ht

/-- Whatever has been asked of a supervisor that leaves it to admission which tasks enter the
queues, a task that is found in a queue is the image of one whose admission has been asked for, and
the arbiter knows the full name of this one then and ever after.  The name in the queue is the
longest part of it that a slot has room for.  If there is room for all of it, the arbiter always has
an answer for the name in the queue. -/
theorem names_agree (hfresh : Fresh s) (rs : List Request)
    (hrs : ∀ q ∈ rs, q.throughAdmission = true) (hfinds : Finds (run s rs) slot t) :
    ∃ u, Requested rs u ∧ t = u.image ∧
      Utf8.Cut Slot.nameRoom u.name.toList t.name.toList ∧
      (∀ later : List Request, (run (run s rs) later).arbiter.Knows u.name) ∧
      (u.name.utf8ByteSize ≤ Slot.nameRoom → t.name = u.name ∧
        ∀ later : List Request, (run (run s rs) later).arbiter.Answers t.name) := by
  have hall := (accountable_fresh hfresh).run hrs fun t ht => ht
  obtain ⟨u, ⟨hrequested, hknown⟩, rfl⟩ := hall.imageOf hfinds
  have hlater : ∀ later : List Request, (run (run s rs) later).arbiter.Knows u.name :=
    fun later => List.foldlRecOn (motive := fun b : Supervisor => b.arbiter.Knows u.name) later _ hknown
      fun _ hb q _ => (Arbiter.invariant_knows u.name).supervise hb q
  refine ⟨u, hrequested, rfl, u.cut_image, hlater, fun hle => ?_⟩
  rw [Task.name_image_of_le hle]
  exact ⟨rfl, fun later => (hlater later).answers⟩

/-- One core, and one queue for four tasks. -/
def singleCore : Settings := { directory := "", capacity := 4, cores := [(0, .active)] }

/-- The supervisor that starts with these settings. -/
def single : Supervisor := ofParts (.ofCores [(0, .active)] 1) ⟨"", 4, [.fresh 4]⟩

theorem start_singleCore : start singleCore ⟨[]⟩ = .ok single := by rfl

/-- The task that leaves a queue has the name that it was admitted under, and the arbiter will always
have an answer for it. -/
theorem names_agree_lidar :
    let lidar : Task := { name := "lidar", wcet := 1, deadline := 10, interArrival := 10 }
    let rs : List Request := [.newTask lidar none none]
    start singleCore ⟨[]⟩ = .ok single ∧ Finds (run single rs) 0 lidar ∧
      ∀ later : List Request, (run (run single rs) later).arbiter.Answers "lidar" := by
  intro lidar rs
  have hfinds : Finds (run single rs) 0 lidar :=
    .leaves (congrArg Reply.admission (by decide +kernel))
  obtain ⟨u, ⟨slot, intruder, hu⟩, -, -, -, hname⟩ :=
    names_agree (fresh_start start_singleCore) rs (by decide) hfinds
  -- there is only one request that the task can come from
  obtain ⟨rfl, -, -⟩ : u = lidar ∧ slot = none ∧ intruder = none := by
    simpa only [rs, List.mem_singleton, Request.newTask.injEq] using hu
  exact ⟨start_singleCore, hfinds, (hname (by decide +kernel)).2⟩

/-- A name of twenty-five octets loses the last one in the queue.  The arbiter does not know what is
left of it, so whoever asks for the task under the name in the queue is told that it may not run,
although it may. -/
theorem names_differ :
    let encoders : Task :=
      { name := "front-left-wheel-encoders", wcet := 1, deadline := 10, interArrival := 10 }
    let rs : List Request := [.newTask encoders none none]
    start singleCore ⟨[]⟩ = .ok single ∧ (∀ q ∈ rs, q.throughAdmission = true) ∧
      Finds (run single rs) 0 { encoders with name := "front-left-wheel-encoder" } ∧
      ¬ (run single rs).arbiter.Knows "front-left-wheel-encoder" ∧
      (run single rs).isAllowed "front-left-wheel-encoder" = false ∧
      (run single rs).isAllowed encoders.name = true := by
  intro encoders rs
  have hfinds : Finds (run single rs) 0 { encoders with name := "front-left-wheel-encoder" } :=
    .leaves (congrArg Reply.admission (by decide +kernel))
  have hunknown : ¬ (run single rs).arbiter.Knows "front-left-wheel-encoder" := by
    rw [Arbiter.Knows]
    decide +kernel
  exact ⟨start_singleCore, by decide, hfinds, hunknown, by decide +kernel, by decide +kernel⟩

end Supervisor

end RealTime
