import RealTime.Admission.Basic
import RealTime.Proofs.Bank

/-! # The entry of tasks into slots

Other processes may take locks between the reading of a queue and the entry of a task, so the
analysis and the entry see different banks.  They differ in locks only: if the entry finds the
queue free, it is the queue that was read.

* `entered`      an entry does nothing, commits the task, or lets it wait
* `flushed`      a flush enters the first waiting tasks and leaves the others
* `flushTasks_keeps`  what locking and queueing keep, a flush keeps -/

namespace RealTime.Admission

variable {a : Admission} {b : Bank} {t : Task} {slot : Nat} {r : Region}

@[simp]
theorem pendingOn_insert {bank : Bank} {platform : Platform} {ws : List Task} {i : Nat} :
    pendingOn { platform, bank, pending := a.pending.insert slot ws } i =
      if i = slot then ws else a.pendingOn i := by
  simp only [pendingOn, OrderedMap.get?_insert]
  split <;> rfl

@[simp]
theorem pendingOn_erase {bank : Bank} {platform : Platform} {i : Nat} :
    pendingOn { platform, bank, pending := a.pending.erase slot } i =
      if i = slot then [] else a.pendingOn i := by
  simp only [pendingOn, OrderedMap.get?_erase]
  split <;> rfl

/-- What the entry of a task into a slot comes to.  Banks are told up to their locks. -/
inductive Entered (a : Admission) (t : Task) (slot : Nat) : Attempt PlacementStatus → Prop
  /-- Nothing has happened. -/
  | refused {e : AdmissionError} {lockTaken : Bool} {bank : Bank}
      (hbank : bank.unlocked = a.bank.unlocked) :
      Entered a t slot { result := .error e, lockTaken, state := { a with bank } }
  /-- The task is the last one in the queue. -/
  | committed {r r' : Region} {queued : List Task} {lockTaken : Bool} {bank : Bank}
      (hr : a.bank.queues[slot]? = some r) (hqueued : r.contents a.bank.capacity = .ok queued)
      (haccept : analyze t (analysed queued (a.pendingOn slot)) = .accept)
      (hpush : r.push a.bank.capacity t = .ok r')
      (hbank : bank.unlocked = (a.bank.put slot r').unlocked) :
      Entered a t slot { result := .ok .committed, lockTaken, state := { a with bank } }
  /-- The task is the last one to wait. -/
  | waits {r : Region} {queued : List Task} {lockTaken : Bool} {bank : Bank}
      (hr : a.bank.queues[slot]? = some r) (hqueued : r.contents a.bank.capacity = .ok queued)
      (haccept : analyze t (analysed queued (a.pendingOn slot)) = .accept)
      (hbank : bank.unlocked = a.bank.unlocked) :
      Entered a t slot
        { result := .ok .pending, lockTaken
          state := { a with
            bank, pending := a.pending.insert slot (a.pendingOn slot ++ [t]) } }

/-- An intruder takes a lock or does nothing. -/
theorem intrude_some (b : Bank) (slot : Nat) : (intrude b (some slot)).2 = (b.lock slot).2 := by
  simp only [intrude]
  split <;> rename_i heq <;> rw [heq]

/-- An intruder changes locks only. -/
theorem unlocked_intrude (b : Bank) (intruder : Option Nat) :
    (intrude b intruder).2.unlocked = b.unlocked := by
  cases intruder with
  | none => rfl
  | some slot =>
    rw [intrude_some]
    exact b.unlocked_lock slot

/-- An entry does nothing, commits the task, or lets it wait. -/
theorem entered (a : Admission) (t : Task) (slot : Nat) (intruder : Option Nat) :
    Entered a t slot (a.enter t slot intruder) := by
  cases hr : a.bank.queues[slot]? with
  | none =>
    simp only [enter, Bank.list, Bank.on_none hr]
    exact .refused rfl
  | some r =>
    simp only [enter, Bank.list_eq hr]
    by_cases hlock : r.header.lock = 0
    · have hintrude := unlocked_intrude a.bank intruder
      rw [if_pos hlock]
      cases hqueued : r.contents a.bank.capacity with
      | error e => exact .refused rfl
      | ok queued =>
        dsimp only
        cases haccept : analyze t (analysed queued (a.pendingOn slot)) with
        | reject reason => exact .refused hintrude
        | accept =>
          -- the queue that was read is free, so it is the same one if it still is
          obtain ⟨r₁, hr₁, heq⟩ := Bank.exists_of_unlocked hintrude hr
          simp only [Bank.enqueue_eq hr₁]
          by_cases hlock₁ : r₁.header.lock = 0
          · rw [Region.unlock_eq_self hlock, Region.unlock_eq_self hlock₁] at heq
            subst heq
            rw [if_pos hlock₁, Bank.capacity_eq_of_unlocked hintrude]
            cases hpush : r₁.push a.bank.capacity t with
            | error e =>
              rw [Region.push_error hpush]
              exact .refused hintrude
            | ok r' =>
              refine .committed hr hqueued haccept hpush ?_
              rw [Bank.unlocked_put, Bank.unlocked_put, hintrude]
          · rw [if_neg hlock₁]
            exact .waits hr hqueued haccept hintrude
    · rw [if_neg hlock]
      exact .refused rfl

/-! ### The state after a request -/

theorem replyTo_state (r : Attempt Placement) : (replyTo r).2 = r.state := by
  rw [replyTo]
  split <;> rfl

theorem onBank_state {α : Type} (a : Admission) (reply : α → Reply)
    (result : Except RingError α × Bank) :
    (a.onBank reply result).2 = { a with bank := result.2 } := by
  unfold onBank
  split <;> rfl

theorem perform_flush (a : Admission) (slot : Nat) (intruder : Option Nat) :
    (a.perform (.flush slot intruder)).2 = (a.flush slot intruder).2 := by
  simp only [perform]
  split <;> rename_i heq <;> rw [heq]

theorem perform_change (a : Admission) (change : Platform.Change) :
    (a.perform (.change change)).2 = { a with platform := (a.platform.step change).2 } := by
  simp only [perform]
  split <;> rename_i heq <;> rw [heq]

/-! ### Flushes -/

/-- Whatever locking a slot and queueing the waiting tasks keep, a flush of the slot keeps. -/
theorem flushTasks_keeps {P : Bank → Prop} (ws : List Task) (hlock : ∀ b, P b → P (b.lock slot).2)
    (henqueue : ∀ b, ∀ t ∈ ws, P b → P (b.enqueue slot t).2) (h : P b) (intruder : Option Nat)
    (n : Nat) : P (flushTasks b slot intruder n ws).2.2 := by
  induction ws generalizing b n with
  | nil => exact h
  | cons t ws ih =>
    have hintrude : P (if intruder = some n then (b.lock slot).2 else b) := by
      split
      · exact hlock b h
      · exact h
    have hqueued := henqueue _ t List.mem_cons_self hintrude
    simp only [flushTasks]
    split
    · rename_i heq
      rw [heq] at hqueued
      exact ih (fun b t ht => henqueue b t (List.mem_cons_of_mem _ ht)) hqueued (n + 1)
    · rename_i heq
      rw [heq] at hqueued
      exact hqueued

/-- Those that wait after a flush have waited before it. -/
theorem flushTasks_waiting_suffix (b : Bank) (slot : Nat) (intruder : Option Nat) (n : Nat)
    (ws : List Task) : (flushTasks b slot intruder n ws).2.1 <:+ ws := by
  induction ws generalizing b n with
  | nil => exact List.suffix_refl []
  | cons t ws ih =>
    simp only [flushTasks]
    split
    · exact (ih _ (n + 1)).trans (List.suffix_cons t ws)
    · exact List.suffix_refl _

/-- The waiting tasks that a flush enters: those before the first one that is refused. -/
def entering (b : Bank) (slot : Nat) (intruder : Option Nat) (n : Nat) : List Task → List Task
  | [] => []
  | t :: ts =>
    let b := if intruder = some n then (b.lock slot).2 else b
    match b.enqueue slot t with
    | (.ok (), b) => t :: entering b slot intruder (n + 1) ts
    | (.error _, _) => []

/-- The tasks `entered` are the first of the waiting tasks `ws`, all of them unless the flush has
failed, and stand in the queue of a slot behind the tasks `ts` that it held. -/
structure Flushed (capacity : UInt64) (slot : Nat) (ts ws entered : List Task)
    (out : Except RingError Nat × List Task × Bank) : Prop where
  waiting_eq : ws = entered ++ out.2.1
  all : ∀ m, out.1 = .ok m → out.2.1 = []
  region : ∃ r, out.2.2.queues[slot]? = some r ∧ r.Holds capacity (ts ++ entered.map Task.image)

/-- A flush enters the first waiting tasks and leaves the others. -/
theorem flushed {ts : List Task} (hr : b.queues[slot]? = some r) (hholds : r.Holds b.capacity ts)
    (intruder : Option Nat) (n : Nat) (ws : List Task) :
    Flushed b.capacity slot ts ws (entering b slot intruder n ws)
      (flushTasks b slot intruder n ws) := by
  induction ws generalizing b r ts n with
  | nil =>
    refine ⟨rfl, fun _ _ => rfl, r, hr, ?_⟩
    rw [entering, List.map_nil, List.append_nil]
    exact hholds
  | cons t ws ih =>
    -- the intruder may take the lock before this entry, which changes no task
    have hintrude : (if intruder = some n then (b.lock slot).2 else b).unlocked = b.unlocked := by
      split
      · exact b.unlocked_lock slot
      · rfl
    obtain ⟨r₁, hr₁, heq⟩ := Bank.exists_of_unlocked hintrude hr
    have hcap := Bank.capacity_eq_of_unlocked hintrude
    have hholds₁ := hholds.of_unlock_eq heq
    simp only [entering, flushTasks]
    generalize (if intruder = some n then (b.lock slot).2 else b) = b₁ at hr₁ hcap ⊢
    rw [← hcap] at hholds₁ ⊢
    -- a task that is refused goes on waiting, and so do those behind it
    have hstop : ∀ e, Flushed b₁.capacity slot ts (t :: ws) [] (.error e, t :: ws, b₁) := fun e =>
      ⟨rfl, fun _ h => (nomatch h), r₁, hr₁, by rwa [List.map_nil, List.append_nil]⟩
    rw [Bank.enqueue_eq hr₁]
    by_cases hlock : r₁.header.lock = 0
    · rw [if_pos hlock]
      rcases Nat.lt_or_eq_of_le hholds₁.length_le with hroom | hfull
      · obtain ⟨r₂, hpush, hholds₂, -⟩ := hholds₁.push (t := t) hroom
        rw [hpush]
        have hr₂ : (b₁.put slot r₂).queues[slot]? = some r₂ := by
          rw [Bank.put_getElem? (Bank.lt_count hr₁), if_pos rfl]
        obtain ⟨hws, hall, r', hr', hholds'⟩ := ih hr₂ hholds₂ (n + 1)
        refine ⟨congrArg (t :: ·) hws, hall, r', hr', ?_⟩
        rwa [List.append_assoc] at hholds'
      · rw [hholds₁.push_full hfull]
        exact hstop .full
    · rw [if_neg hlock]
      exact hstop .locked

end RealTime.Admission
