import RealTime.Proofs.Admission.Placing

/-! # Sound platforms and banks

Admission changes the platform and the bank, and flushes change the bank.  Whatever is asked of
it, the run queues that cores host stay registered, and every region of the bank stays a queue.

* `Provides.registered`  a platform that provides for a task stays registered
* `sound_of_create`      a new bank
* `Sound.perform`        one request -/

namespace RealTime

namespace Admission

/-- The platform is registered, and the bank has a number of queues. -/
structure Sound (a : Admission) (count : Nat) : Prop where
  registered : a.platform.Registered
  bank : a.bank.Sound
  count_eq : a.bank.count = count

variable {a a' : Admission} {t : Task} {slot count : Nat}

/-- A new bank is sound. -/
theorem sound_of_create {tree : FileTree} {directory : String} {capacity : UInt64}
    (hcreate : Bank.create tree directory count capacity = .ok a.bank)
    (hreg : a.platform.Registered) : a.Sound count := by
  obtain ⟨rfl, hcount, hempty⟩ := Bank.holds_of_create hcreate
  exact ⟨hreg, ⟨fun hr => ⟨[], hempty hr⟩⟩, hcount⟩

/-- Locks and waiting tasks do not count. -/
theorem Sound.unlocked (h : a.Sound count) (hbank : a'.bank.unlocked = a.bank.unlocked)
    (hplatform : a'.platform = a.platform) : a'.Sound count where
  registered := hplatform ▸ h.registered
  bank := h.bank.unlocked hbank
  count_eq := (Bank.count_eq_of_unlocked hbank).trans h.count_eq

/-- The bank may change as long as it is sound and has the same slots. -/
theorem Sound.withBank (h : a.Sound count) {bank : Bank} (hbank : bank.Sound)
    (hcount : bank.count = a.bank.count) : { a with bank }.Sound count :=
  ⟨h.registered, hbank, hcount.trans h.count_eq⟩

/-- An entry leaves a sound bank. -/
theorem Sound.entered (h : a.Sound count) {r : Attempt PlacementStatus}
    (hentered : Entered a t slot r) : r.state.Sound count := by
  cases hentered with
  | refused hbank => exact h.unlocked hbank rfl
  | @committed r r' _ _ bank hr _ _ hpush hbank =>
    have hput := h.withBank (h.bank.push hr hpush) (Bank.count_put a.bank slot r')
    exact hput.unlocked hbank rfl
  | waits _ _ _ hbank => exact h.unlocked hbank rfl

/-- A platform that provides for a task stays registered. -/
theorem Provides.registered {p p' : Platform} {placement : Placement}
    (h : Provides p t placement p') (hreg : p.Registered) : p'.Registered := by
  cases h with
  | named => exact hreg
  | chosen hd => exact hreg.withQueues (Nat.le_of_eq List.length_set.symm)
  | created hc hactive hunused hslot hfree =>
    -- the new run queue has a number by the time that a core hosts it
    have hlength : ∀ d : RunQueue, p.queues.length < (p.queues ++ [d]).length := fun d => by
      rw [List.length_append, List.length_singleton]
      omega
    apply Platform.Registered.modifyCore (hreg.withQueues (Nat.le_of_lt (hlength _)))
    intro c hc q hq
    rcases OrderedSet.mem_insert.1 hq with rfl | hq
    · exact hlength _
    · exact Nat.lt_trans (hreg.lt_length hc q hq) (hlength _)

/-- An attempt to place a task leaves all sound. -/
theorem Sound.placed (h : a.Sound count) {r : Attempt Placement} (hplaced : Placed a t r) :
    r.state.Sound count := by
  cases hplaced with
  | refused hbank => exact h.unlocked hbank rfl
  | placed hentered _ hprovides =>
    have hafter := h.entered hentered
    exact ⟨hprovides.registered h.registered, hafter.bank, hafter.count_eq⟩

/-- A flush enters tasks into a queue one by one, and the bank stays sound. -/
theorem Sound.flush (h : a.Sound count) (slot : Nat) (intruder : Option Nat) :
    (a.flush slot intruder).2.Sound count := by
  cases hwaiting : a.pending.get? slot with
  | none =>
    simp only [Admission.flush, hwaiting]
    split <;> exact h
  | some waiting =>
    simp only [Admission.flush, hwaiting]
    have hkeeps := flushTasks_keeps waiting (P := fun b => b.Sound ∧ b.count = a.bank.count)
      (fun b hb => ⟨hb.1.unlocked (b.unlocked_lock slot),
        (Bank.count_eq_of_unlocked (b.unlocked_lock slot)).trans hb.2⟩)
      (fun b t _ hb => ⟨hb.1.enqueue slot t, (Bank.on_count b slot _).trans hb.2⟩)
      ⟨h.bank, rfl⟩ intruder 0
    generalize flushTasks a.bank slot intruder 0 waiting = out at *
    obtain ⟨result, rest, bank⟩ := out
    have hafter := h.withBank hkeeps.1 hkeeps.2
    cases result <;> exact ⟨hafter.registered, hafter.bank, hafter.count_eq⟩

/-- No request makes platform or bank unsound. -/
theorem Sound.perform (h : a.Sound count) (q : Request) : (a.perform q).2.Sound count := by
  cases q with
  | place t intruder =>
    simp only [Admission.perform, replyTo_state]
    exact h.placed (placed_place h.registered t intruder)
  | placeOn t slot intruder =>
    simp only [Admission.perform, replyTo_state]
    exact h.placed (placed_placeOn a t slot intruder)
  | flush slot intruder =>
    rw [perform_flush]
    exact h.flush slot intruder
  | enqueue slot t =>
    simp only [Admission.perform, onBank_state]
    exact h.withBank (h.bank.enqueue slot t) (Bank.on_count a.bank slot _)
  | dequeue slot =>
    simp only [Admission.perform, onBank_state]
    exact h.withBank (h.bank.dequeue slot) (Bank.on_count a.bank slot _)
  | lock slot =>
    simp only [Admission.perform, onBank_state]
    exact h.unlocked (a.bank.unlocked_lock slot) rfl
  | unlock slot => exact h.unlocked (a.bank.unlocked_unlock slot) rfl
  | change change =>
    rw [perform_change]
    exact ⟨h.registered.step change, h.bank, h.count_eq⟩

end Admission

end RealTime
