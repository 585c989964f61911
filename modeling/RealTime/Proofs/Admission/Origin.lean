import RealTime.Proofs.Admission.Placing
import RealTime.Proofs.Admission.Slots

/-! # Where the tasks of an admission come from

If nothing is queued past the analysis, every task that waits is one that has been admitted, and
every task that can be found in a queue is what a slot keeps of such a one.  `Admission.Only`
says so for the tasks of any kind: an attempt to place a task adds this task at most, and
whatever else is asked adds none.

* `Only.placed`, `Only.flush`  tasks that are placed, and waiting tasks that enter their queue
* `Only.perform`   one request -/

namespace RealTime

/-- What a slot keeps of a task of some kind. -/
def ImageOf (Q : Task → Prop) (t : Task) : Prop := ∃ u, Q u ∧ t = u.image

theorem ImageOf.mono {Q R : Task → Prop} (hQR : ∀ t, Q t → R t) (t : Task) :
    ImageOf Q t → ImageOf R t
  | ⟨u, hu, heq⟩ => ⟨u, hQR u hu, heq⟩

namespace Admission

/-- The waiting tasks are of one kind, and what can be found in the queues comes from tasks of this
kind. -/
structure Only (a : Admission) (Q : Task → Prop) : Prop where
  queued : a.bank.Shows (ImageOf Q)
  waiting : ∀ {i : Nat}, ∀ t ∈ a.pendingOn i, Q t

variable {a a' : Admission} {slot : Nat} {t : Task} {Q R : Task → Prop}

theorem Only.mono (h : a.Only Q) (hQR : ∀ t, Q t → R t) : a.Only R :=
  ⟨h.queued.mono (ImageOf.mono hQR), fun t ht => hQR t (h.waiting t ht)⟩

/-- Locks and the platform do not count. -/
theorem Only.unlocked (h : a.Only Q) (hbank : a'.bank.unlocked = a.bank.unlocked)
    (hpending : a'.pending = a.pending) : a'.Only Q := by
  refine ⟨h.queued.unlocked hbank, fun {i} t ht => h.waiting (i := i) t ?_⟩
  rwa [pendingOn, hpending] at ht

/-- The entry of a task adds it at most. -/
theorem Only.entered {r : Attempt PlacementStatus} (h : a.Only Q) (hentered : Entered a t slot r)
    (ht : ∀ status, r.result = .ok status → Q t) : r.state.Only Q := by
  cases hentered with
  | refused hbank => exact h.unlocked hbank rfl
  | committed hr _ _ hpush hbank =>
    have hput := h.queued.push ⟨t, ht _ rfl, rfl⟩ hr hpush
    exact ⟨hput.unlocked hbank, h.waiting⟩
  | waits _ _ _ hbank =>
    refine ⟨h.queued.unlocked hbank, fun {i} u hu => ?_⟩
    rw [pendingOn_insert] at hu
    split at hu
    · rcases List.mem_append.1 hu with hu | hu
      · exact h.waiting u hu
      · rw [List.mem_singleton.1 hu]
        exact ht _ rfl
    · exact h.waiting u hu

/-- An attempt to place a task adds it at most, and adds nothing if it fails. -/
theorem Only.placed {r : Attempt Placement} (h : a.Only Q) (hplaced : Placed a t r)
    (ht : ∀ p, r.result = .ok p → Q t) : r.state.Only Q := by
  cases hplaced with
  | refused hbank => exact h.unlocked hbank rfl
  | placed hentered _ _ =>
    have hafter := h.entered hentered fun _ _ => ht _ rfl
    exact ⟨hafter.queued, hafter.waiting⟩

/-- A flush moves waiting tasks. -/
theorem Only.flush (h : a.Only Q) (slot : Nat) (intruder : Option Nat) :
    (a.flush slot intruder).2.Only Q := by
  cases hwaiting : a.pending.get? slot with
  | none =>
    simp only [Admission.flush, hwaiting]
    split <;> exact h
  | some waiting =>
    have hkind : ∀ t ∈ waiting, Q t := by
      have hslot := h.waiting (i := slot)
      rwa [pendingOn, hwaiting, Option.getD_some] at hslot
    have hkeeps := flushTasks_keeps waiting (P := (·.Shows (ImageOf Q)))
      (fun b hb => hb.unlocked (b.unlocked_lock slot))
      (fun b t ht hb => hb.enqueue ⟨t, hkind t ht, rfl⟩ slot) h.queued intruder 0
    have hrest := flushTasks_waiting_suffix a.bank slot intruder 0 waiting
    simp only [Admission.flush, hwaiting]
    generalize flushTasks a.bank slot intruder 0 waiting = out at *
    obtain ⟨result, rest, bank⟩ := out
    cases result with
    | ok n =>
      refine ⟨hkeeps, fun {i} t ht => ?_⟩
      rw [pendingOn_erase] at ht
      split at ht
      · cases ht
      · exact h.waiting t ht
    | error e =>
      refine ⟨hkeeps, fun {i} t ht => ?_⟩
      rw [pendingOn_insert] at ht
      split at ht
      · exact hkind t (hrest.subset ht)
      · exact h.waiting t ht

/-- Whatever is asked, only the task of an attempt to place it can be added. -/
theorem Only.perform (h : a.Only Q) (hreg : a.platform.Registered) {q : Request}
    (hq : q.throughAnalysis = true) (ht : ∀ t, q.task? = some t → Q t) : (a.perform q).2.Only Q := by
  cases q with
  | place t intruder =>
    simp only [Admission.perform, replyTo_state]
    exact h.placed (placed_place hreg t intruder) fun _ _ => ht t rfl
  | placeOn t slot intruder =>
    simp only [Admission.perform, replyTo_state]
    exact h.placed (placed_placeOn a t slot intruder) fun _ _ => ht t rfl
  | flush slot intruder =>
    rw [perform_flush]
    exact h.flush slot intruder
  | enqueue => cases hq
  | dequeue slot =>
    simp only [Admission.perform, onBank_state]
    exact ⟨(h.queued.dequeue slot).2, h.waiting⟩
  | lock slot =>
    simp only [Admission.perform, onBank_state]
    exact h.unlocked (a.bank.unlocked_lock slot) rfl
  | unlock slot => exact h.unlocked (a.bank.unlocked_unlock slot) rfl
  | change change =>
    rw [perform_change]
    exact ⟨h.queued, h.waiting⟩

end Admission

end RealTime
