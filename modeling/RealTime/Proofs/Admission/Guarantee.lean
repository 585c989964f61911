import Mathlib.Data.List.Induction
import RealTime.Proofs.Admission.Slots
import RealTime.Proofs.Feasibility

/-! # What admission guarantees

In every run of admissions, flushes and departures, with other processes taking and freeing locks
as they like, the tasks of a slot stay feasible.  The only task of a slot that can lack the time
for its own job is one that was admitted when the slot had no other.

* `Moves.feasible`, `Moves.overruns_le_one`  what each move keeps
* `Guarantee.perform`   one request
* `punctual_run`        all runs -/

namespace RealTime

/-- A slot shows all of a task that the analysis looks at. -/
theorem Task.like_image (t : Task) : t.Like t.image := ⟨rfl, rfl, rfl, rfl⟩

/-- Whether the deadline of a task leaves no time for its own job. -/
def Task.overruns (t : Task) : Bool := t.deadline < t.wcet

theorem Task.overruns_image (t : Task) : t.image.overruns = t.overruns := rfl

namespace Admission

variable {a : Admission} {t k : Task} {slot : Nat} {ts ws ts' ws' : List Task}
  {q : Request} {rs : List Request}

/-! ### What moves keep -/

theorem analysed_perm (ts ws : List Task) : (analysed ts ws).Perm (ts ++ ws) :=
  List.mergeSort_perm _ _

/-- An accepted task joins the others. -/
private theorem feasible_cons (hf : Feasible (ts ++ ws))
    (haccept : analyze t (analysed ts ws) = .accept) : Feasible (t :: (ts ++ ws)) := by
  have hperm := analysed_perm ts ws
  exact ((hf.perm hperm.symm).accept haccept).perm (hperm.cons t)

/-- Tasks that enter the queue lose at most a part of their names. -/
private theorem feasible_flush (entered : List Task) (hf : Feasible (ts ++ (entered ++ ws))) :
    Feasible (ts ++ entered.map Task.image ++ ws) := by
  induction entered generalizing ts with
  | nil => simpa using hf
  | cons t entered ih =>
    have hfirst : Feasible (t :: (ts ++ (entered ++ ws))) := hf.perm List.perm_middle
    have hmoved : Feasible (ts ++ [t.image] ++ (entered ++ ws)) := by
      apply (hfirst.like_cons t.like_image).perm
      rw [List.append_assoc]
      exact List.perm_middle.symm
    simpa using ih hmoved

/-- The tasks of a slot stay feasible. -/
theorem Moves.feasible (h : Moves q ts ws ts' ws') (hf : Feasible (ts ++ ws)) :
    Feasible (ts' ++ ws') := by
  cases h with
  | stays => exact hf
  | commits hq haccept =>
    have hjoined := (feasible_cons hf haccept).like_cons (Task.like_image _)
    apply hjoined.perm
    rw [List.append_assoc]
    exact List.perm_middle.symm
  | waits hq haccept =>
    apply (feasible_cons hf haccept).perm
    rw [← List.append_assoc]
    exact (List.perm_append_singleton _ _).symm
  | flushes hws =>
    subst hws
    exact feasible_flush _ hf
  | leaves hts =>
    subst hts
    exact hf.of_cons

/-- Where there are tasks already, none without time for its job joins them. -/
private theorem eq_nil_of_overruns (haccept : analyze t (analysed ts ws) = .accept)
    (ht : t.overruns = true) : ts = [] ∧ ws = [] := by
  rw [← List.append_eq_nil_iff]
  apply Decidable.byContradiction
  intro hne
  have hne' : analysed ts ws ≠ [] := by
    intro hnil
    have hperm := analysed_perm ts ws
    rw [hnil] at hperm
    exact hne hperm.nil_eq.symm
  -- a candidate for a slot with tasks is analysed itself, and cannot respond in time
  have hle := wcet_le_of_accept haccept hne'
  exact UInt64.not_lt.2 hle (of_decide_eq_true ht)

/-- At most one task of a slot lacks the time for its job. -/
theorem Moves.overruns_le_one (h : Moves q ts ws ts' ws')
    (hle : (ts ++ ws).countP Task.overruns ≤ 1) : (ts' ++ ws').countP Task.overruns ≤ 1 := by
  have himage : Task.overruns ∘ Task.image = Task.overruns := funext Task.overruns_image
  cases h with
  | stays => exact hle
  | @commits t hq haccept =>
    by_cases ht : t.overruns = true
    · obtain ⟨rfl, rfl⟩ := eq_nil_of_overruns haccept ht
      exact List.countP_le_length
    · have ht' : ¬ t.image.overruns = true := ht
      simpa [List.countP_append, List.countP_cons, ht'] using hle
  | @waits t hq haccept =>
    by_cases ht : t.overruns = true
    · obtain ⟨rfl, rfl⟩ := eq_nil_of_overruns haccept ht
      exact List.countP_le_length
    · simpa [List.countP_append, List.countP_cons, ht] using hle
  | flushes hws =>
    subst hws
    simpa [List.countP_append, List.countP_map, himage, Nat.add_assoc] using hle
  | leaves hts =>
    subst hts
    rw [List.cons_append, List.countP_cons] at hle
    omega

/-! ### Runs -/

/-- The state after some requests. -/
def run (a : Admission) (rs : List Request) : Admission :=
  rs.foldl (fun a q => (a.perform q).2) a

theorem run_concat (a : Admission) (rs : List Request) (q : Request) :
    run a (rs ++ [q]) = ((run a rs).perform q).2 := by
  rw [run, List.foldl_concat, ← run]

/-- The tasks of a slot, queued ones first. -/
def tasksOn (a : Admission) (slot : Nat) : List Task :=
  (a.bank.queues[slot]?.elim [] fun r => r.queued a.bank.capacity) ++ a.pendingOn slot

variable {capacity : UInt64}

theorem Stores.tasksOn_eq (h : a.Stores capacity slot ts ws) : a.tasksOn slot = ts ++ ws := by
  obtain ⟨r, hr, -⟩ := h.region
  rw [tasksOn, hr, Option.elim_some, (h.holds hr).queued_eq, h.pendingOn_eq]

/-- Some request of a run has admitted a task to a slot that had no other. -/
def AdmittedAlone (a : Admission) (rs : List Request) (slot : Nat) (t : Task) : Prop :=
  ∃ before q after, rs = before ++ q :: after ∧ q.task? = some t ∧
    (run a before).tasksOn slot = [] ∧
    ((run a (before ++ [q])).tasksOn slot = [t] ∨
      (run a (before ++ [q])).tasksOn slot = [t.image])

/-- What happened in a run has happened in every longer one. -/
theorem AdmittedAlone.concat (h : AdmittedAlone a rs slot t) (q : Request) :
    AdmittedAlone a (rs ++ [q]) slot t := by
  obtain ⟨before, q', after, hrs, hq, hbefore, hafter⟩ := h
  refine ⟨before, q', after ++ [q], ?_, hq, hbefore, hafter⟩
  rw [hrs, List.append_assoc, List.cons_append]

/-- What admission guarantees about the queued tasks `ts` and the waiting tasks `ws` of a slot. -/
structure Guarantee (a : Admission) (rs : List Request) (capacity : UInt64) (slot : Nat)
    (ts ws : List Task) : Prop where
  stores : (run a rs).Stores capacity slot ts ws
  feasible : Feasible (ts ++ ws)
  overruns_le_one : (ts ++ ws).countP Task.overruns ≤ 1
  queued : ∀ k ∈ ts, k.overruns = true → ∃ t, k = t.image ∧ AdmittedAlone a rs slot t
  waiting : ∀ k ∈ ws, k.overruns = true → AdmittedAlone a rs slot k

/-- No request breaks the guarantee. -/
theorem Guarantee.perform (h : Guarantee a rs capacity slot ts ws)
    (hq : q.throughAnalysis = true) :
    ∃ ts' ws', Guarantee a (rs ++ [q]) capacity slot ts' ws' := by
  obtain ⟨ts', ws', hstores, hmoves⟩ := perform_moves h.stores hq
  rw [← run_concat] at hstores
  have hqueued : ∀ k ∈ ts, k.overruns = true →
      ∃ t, k = t.image ∧ AdmittedAlone a (rs ++ [q]) slot t := fun k hk hover => by
    obtain ⟨t, ht, halone⟩ := h.queued k hk hover
    exact ⟨t, ht, halone.concat q⟩
  have hwaiting : ∀ k ∈ ws, k.overruns = true → AdmittedAlone a (rs ++ [q]) slot k :=
    fun k hk hover => (h.waiting k hk hover).concat q
  -- a task without time for its job is accepted only where it is alone
  have halone : ∀ t, q.task? = some t → analyze t (analysed ts ws) = .accept →
      t.overruns = true → ts' ++ ws' = ts ++ ws ++ [t] ∨ ts' ++ ws' = ts ++ t.image :: ws →
        AdmittedAlone a (rs ++ [q]) slot t := by
    intro t htask haccept hover htasks
    obtain ⟨rfl, rfl⟩ := eq_nil_of_overruns haccept hover
    refine ⟨rs, q, [], rfl, htask, h.stores.tasksOn_eq, ?_⟩
    rw [hstores.tasksOn_eq]
    exact htasks
  refine ⟨ts', ws', ⟨hstores, hmoves.feasible h.feasible,
    hmoves.overruns_le_one h.overruns_le_one, ?queued, ?waiting⟩⟩
  case queued =>
    cases hmoves with
    | stays => exact hqueued
    | @commits t htask haccept =>
      intro k hk hover
      rcases List.mem_append.1 hk with hk | hk
      · exact hqueued k hk hover
      · obtain rfl := List.mem_singleton.1 hk
        exact ⟨t, rfl, halone t htask haccept hover (.inr (by simp))⟩
    | waits => exact hqueued
    | @flushes entered rest hws =>
      intro k hk hover
      rcases List.mem_append.1 hk with hk | hk
      · exact hqueued k hk hover
      · obtain ⟨t, ht, rfl⟩ := List.mem_map.1 hk
        exact ⟨t, rfl, hwaiting t (hws ▸ List.mem_append_left _ ht) hover⟩
    | leaves hts => exact fun k hk => hqueued k (hts ▸ List.mem_cons_of_mem _ hk)
  case waiting =>
    cases hmoves with
    | stays => exact hwaiting
    | commits => exact hwaiting
    | @waits t htask haccept =>
      intro k hk hover
      rcases List.mem_append.1 hk with hk | hk
      · exact hwaiting k hk hover
      · obtain rfl := List.mem_singleton.1 hk
        exact halone k htask haccept hover (.inl (List.append_assoc _ _ _).symm)
    | flushes hws => exact fun k hk => hwaiting k (hws ▸ List.mem_append_right _ hk)
    | leaves => exact hwaiting

/-- The guarantee holds after every run on a slot that has no task at first. -/
theorem guarantee_run (h : a.Stores capacity slot [] []) (rs : List Request)
    (hrs : ∀ q ∈ rs, q.throughAnalysis = true) : ∃ ts ws, Guarantee a rs capacity slot ts ws := by
  induction rs using List.reverseRecOn with
  | nil =>
    exact ⟨[], [], h, feasible_nil, Nat.zero_le 1, fun _ hk => (nomatch hk),
      fun _ hk => (nomatch hk)⟩
  | append_singleton rs q ih =>
    obtain ⟨ts, ws, hguarantee⟩ := ih fun q' hq' => hrs q' (List.mem_append_left _ hq')
    exact hguarantee.perform (hrs q (List.mem_append_right _ (List.mem_singleton_self q)))

/-- The tasks `Q` of a slot keep their deadlines, as far as these leave time for a job at all.  At
most one of them does not, and that one is `alone`.  Tasks are told apart by position. -/
structure Punctual (Q : List Task) (alone : Task → Prop) : Prop where
  schedulable : ∀ (i : Nat) (hi : i < Q.length), Q[i].wcet ≤ Q[i].deadline →
    (∀ j ∈ Schedulability.interferers Q i Q[i], j.interArrival ≠ 0) ∧
      ∃ R, Q[i].responseTime (Schedulability.interferers Q i Q[i]) = .ok R
  overruns_le_one : Q.countP (fun k => decide (k.deadline < k.wcet)) ≤ 1
  alone : ∀ k ∈ Q, k.deadline < k.wcet → ∃ t, (k = t ∨ k = t.image) ∧ alone t

/-- In every run on a new bank, each task of a slot that has time for its job is schedulable among
the other tasks of the slot, queued or waiting, and at most one lacks that time, which was admitted
when the slot had no other.  The queued tasks are those that a listing tells. -/
theorem punctual_run {tree : FileTree} {directory : String} {count : Nat} {bank : Bank}
    (hcreate : Bank.create tree directory count capacity = .ok bank) (platform : Platform)
    (rs : List Request) (hrs : ∀ q ∈ rs, q.throughAnalysis = true) (hslot : slot < count) :
    (∃ r, (run { platform, bank } rs).bank.queues[slot]? = some r ∧
      r.contents capacity = .ok (r.queued capacity)) ∧
    Punctual ((run { platform, bank } rs).tasksOn slot)
      (AdmittedAlone { platform, bank } rs slot) := by
  have hstart : Stores { platform, bank } capacity slot [] [] := stores_of_create hcreate rfl hslot
  obtain ⟨ts, ws, h⟩ := guarantee_run hstart rs hrs
  obtain ⟨r, hr, hholds⟩ := h.stores.region
  refine ⟨⟨r, hr, by rw [hholds.contents_eq, hholds.queued_eq]⟩, ?_⟩
  rw [h.stores.tasksOn_eq]
  refine ⟨fun i hi hk => ?_, h.overruns_le_one, fun k hk hover => ?_⟩
  · have hsched := h.feasible.getElem hi hk
    exact ⟨hsched.paused, hsched.responds⟩
  · have hover' : k.overruns = true := decide_eq_true hover
    rcases List.mem_append.1 hk with hk | hk
    · obtain ⟨t, ht, halone⟩ := h.queued k hk hover'
      exact ⟨t, .inr ht, halone⟩
    · exact ⟨k, .inl rfl, h.waiting k hk hover'⟩

/-- A task without time for its job is queued first, and a less urgent one waits behind it because
another process has taken the lock. -/
theorem punctual_two_tasks :
    let long : Task := { name := "long", wcet := 3, deadline := 2, interArrival := 10, prio := 1 }
    let short : Task := { name := "short", wcet := 4, deadline := 9, interArrival := 9, prio := 2 }
    ∃ bank, Bank.create ⟨[]⟩ "" 1 4 = .ok bank ∧
      let a : Admission := { platform := .ofCount 1, bank }
      let rs : List Request := [.placeOn long 0 none, .placeOn short 0 (some 0), .unlock 0]
      (run a rs).tasksOn 0 = [long.image, short] ∧
        Punctual ((run a rs).tasksOn 0) (AdmittedAlone a rs 0) := by
  intro long short
  have hcreate : Bank.create ⟨[]⟩ "" 1 4 = .ok ⟨"", 4, [.fresh 4]⟩ := by rfl
  refine ⟨_, hcreate, ?_, ?_⟩
  · decide +kernel
  · exact (punctual_run hcreate _ _ (by decide) (by decide)).2

end Admission

end RealTime
