import Mathlib.Data.List.Induction
import RealTime.Proofs.Arbiter.Rulings

/-! # The causes of missed deadlines

Which task made another one miss a deadline is read off the jobs that ended between the release of
the late job and its deadline.  Recorded jobs name their tasks; a terminated job tells only its
number, so it counts against the first other task that has that number as its newest job.  Both
kinds are `Evidence`, and each piece of it accuses at most one task (`Accuses`).

The search is one pass over the evidence, recorded jobs first (`cause?_eq`).  It finds the task that
is accused by the first of the latest exits (`Convicted`).

* `ownerOf?_eq_some_iff`  whose newest job has a number
* `Candidate.later`       one more piece of evidence that accuses a task
* `Convicted.unique`      at most one task is convicted
* `cause?_latest_exit`    what the search finds, for all arbiters and monitoring data -/

namespace RealTime

/-- What tells about a job that has ended. -/
inductive Evidence where
  | recorded (job : JobRecord)
  | terminated (job : Termination)

/-- When the job ended; 0 while it is running. -/
def Evidence.exit : Evidence → Nat
  | recorded j => j.exit
  | terminated t => t.exit

/-- All evidence in the order in which it is looked at. -/
def Snapshot.evidence (s : Snapshot) : List Evidence :=
  s.jobs.map .recorded ++ s.terminated.map .terminated

namespace Arbiter

variable {a : Arbiter} {name owner c : String} {r : Record} {released deadline job : Nat}

/-! ### Owners of jobs -/

/-- A task is the first by name, apart from a given one, whose newest job has a given number. -/
structure Owns (a : Arbiter) (name : String) (job : Nat) (owner : String) : Prop where
  ne : owner ≠ name
  newest : ∃ r, a.tasks.get? owner = some r ∧ r.newest.id = job
  first : ∀ {other r}, other ≠ name → a.tasks.get? other = some r → r.newest.id = job →
    owner ≤ other

theorem Owns.unique {owner' : String} (h : a.Owns name job owner) (h' : a.Owns name job owner') :
    owner = owner' := by
  obtain ⟨r, hr, hid⟩ := h.newest
  obtain ⟨r', hr', hid'⟩ := h'.newest
  exact Std.le_antisymm (h.first h'.ne hr' hid') (h'.first h.ne hr hid)

theorem owns_of_ownerOf? (h : a.ownerOf? name job = some owner) : a.Owns name job owner := by
  obtain ⟨⟨owner, r⟩, hfind, rfl⟩ := Option.map_eq_some_iff.1 h
  obtain ⟨htest, before, after, hsplit, hbefore⟩ := List.find?_eq_some_iff_append.1 hfind
  simp only [Bool.and_eq_true, bne_iff_ne, beq_iff_eq] at htest
  have hr : a.tasks.get? owner = some r :=
    OrderedMap.get?_of_mem_entries (List.mem_of_find?_eq_some hfind)
  refine ⟨htest.1, ⟨r, hr, htest.2⟩, fun {other o} hne ho hid => ?_⟩
  -- the entries are sorted by name, and none in front of the first match passes the test
  have hmem := OrderedMap.mem_entries_of_get? ho
  have hsorted := a.tasks.ordered
  rw [hsplit] at hmem hsorted
  rcases List.mem_append.1 hmem with hmem | hmem
  · simpa [hne, hid] using hbefore _ hmem
  · rcases List.mem_cons.1 hmem with heq | hmem
    · exact Std.le_of_eq (congrArg Prod.fst heq).symm
    · have hbehind := (List.pairwise_cons.1 (List.pairwise_append.1 hsorted).2.1).1
      exact Std.le_of_lt (hbehind _ hmem)

/-- The search for the owner of a job. -/
theorem ownerOf?_eq_some_iff : a.ownerOf? name job = some owner ↔ a.Owns name job owner := by
  refine ⟨owns_of_ownerOf?, fun h => ?_⟩
  cases howner : a.ownerOf? name job with
  | some owner' => rw [(owns_of_ownerOf? howner).unique h]
  | none =>
    -- the record that makes the task an owner would have been found
    obtain ⟨r, hr, hid⟩ := h.newest
    have hnone := List.find?_eq_none.1 (Option.map_eq_none_iff.1 howner) _
      (OrderedMap.mem_entries_of_get? hr)
    simp [h.ne, hid] at hnone

/-! ### Accusations -/

/-- An instant lies between the release of a job and its deadline.  Instant 0 stands for none. -/
def Within (released deadline t : Nat) : Prop :=
  0 < t ∧ released ≤ t ∧ t ≤ Clock.after released deadline

instance : Decidable (Within released deadline job) := inferInstanceAs (Decidable (_ ∧ _ ∧ _))

/-- A piece of evidence counts against a task when a job of `name` that was released at an instant
has missed its deadline. -/
def Accuses (a : Arbiter) (name : String) (released deadline : Nat) : Evidence → String → Prop
  | .recorded j, c => j.task = c ∧ c ≠ name ∧ a.tasks.contains c = true ∧
      Within released deadline j.exit
  | .terminated t, c => t.id ≠ 0 ∧ Within released deadline t.exit ∧ a.Owns name t.id c

/-- The task that a piece of evidence counts against. -/
def accused? (a : Arbiter) (name : String) (released deadline : Nat) : Evidence → Option String
  | .recorded j =>
    if j.task ≠ name ∧ Within released deadline j.exit ∧ a.tasks.contains j.task = true then
      some j.task
    else none
  | .terminated t =>
    if t.id ≠ 0 ∧ Within released deadline t.exit then a.ownerOf? name t.id else none

theorem accused?_eq_some_iff {e : Evidence} :
    a.accused? name released deadline e = some c ↔ a.Accuses name released deadline e c := by
  cases e with
  | recorded j =>
    simp only [accused?, Accuses, Option.ite_none_right_eq_some, Option.some.injEq]
    constructor
    · rintro ⟨⟨hne, hwithin, hin⟩, rfl⟩
      exact ⟨rfl, hne, hin, hwithin⟩
    · rintro ⟨rfl, hne, hin, hwithin⟩
      exact ⟨⟨hne, hwithin, hin⟩, rfl⟩
  | terminated t =>
    simp only [accused?, Accuses, Option.ite_none_right_eq_some, ownerOf?_eq_some_iff, and_assoc]

/-- One piece of evidence accuses one task at most. -/
theorem Accuses.unique {e : Evidence} {c' : String} (h : a.Accuses name released deadline e c)
    (h' : a.Accuses name released deadline e c') : c = c' :=
  Option.some.inj ((accused?_eq_some_iff.2 h).symm.trans (accused?_eq_some_iff.2 h'))

/-! ### The latest exit -/

variable {A : Evidence → String → Prop} {l : List Evidence}

/-- A task is accused by the first of the latest exits among the evidence that accuses anybody. -/
def Convicted (A : Evidence → String → Prop) (l : List Evidence) (c : String) : Prop :=
  ∃ before e after, l = before ++ e :: after ∧ A e c ∧
    (∀ e' ∈ before, ∀ c', A e' c' → e'.exit < e.exit) ∧
    ∀ e' ∈ after, ∀ c', A e' c' → e'.exit ≤ e.exit

/-- Behind the first of the latest exits there is no larger one, and in front of it there are only
smaller ones.  So it stands in one place. -/
private theorem eq_of_first_of_latest {c' : String} {e e' : Evidence}
    {mid after after' : List Evidence} (hc : A e c) (hc' : A e' c')
    (hsplit : e :: after = mid ++ e' :: after')
    (hafter : ∀ d ∈ after, ∀ c, A d c → d.exit ≤ e.exit)
    (hmid : ∀ d ∈ mid, ∀ c, A d c → d.exit < e'.exit) : e = e' := by
  cases mid with
  | nil => exact (List.cons.inj hsplit).1
  | cons d mid =>
    obtain ⟨rfl, rfl⟩ := List.cons.inj hsplit
    have hle := hafter e' (List.mem_append_right mid List.mem_cons_self) c' hc'
    have hlt := hmid e List.mem_cons_self c hc
    omega

theorem Convicted.unique {c' : String} (h : Convicted A l c) (h' : Convicted A l c')
    (hA : ∀ {e c c'}, A e c → A e c' → c = c') : c = c' := by
  obtain ⟨before, e, after, rfl, hc, hbefore, hafter⟩ := h
  obtain ⟨before', e', after', hsplit, hc', hbefore', hafter'⟩ := h'
  rcases List.append_eq_append_iff.1 hsplit with ⟨mid, rfl, htail⟩ | ⟨mid, rfl, htail⟩
  · have heq := eq_of_first_of_latest hc hc' htail hafter (List.forall_mem_append.1 hbefore').2
    exact hA (heq ▸ hc) hc'
  · have heq := eq_of_first_of_latest hc' hc htail hafter' (List.forall_mem_append.1 hbefore).2
    exact hA hc (heq ▸ hc')

/-- What a pass over some evidence has found: nobody, if no one is accused, and otherwise the
convicted task along with the exit that counts against it. -/
def Candidate (A : Evidence → String → Prop) (l : List Evidence) : Option (Nat × String) → Prop
  | none => ∀ e ∈ l, ∀ c, ¬ A e c
  | some (t, c) => ∃ before e after, l = before ++ e :: after ∧ A e c ∧ e.exit = t ∧
      (∀ e' ∈ before, ∀ c', A e' c' → e'.exit < t) ∧ ∀ e' ∈ after, ∀ c', A e' c' → e'.exit ≤ t

/-- One more piece of evidence accuses a task. -/
theorem Candidate.later {best : Option (Nat × String)} {e : Evidence} (h : Candidate A l best)
    (he : A e c) : Candidate A (l ++ [e]) (laterExit best e.exit c) := by
  cases best with
  | none => exact ⟨l, e, [], rfl, he, rfl, fun e' he' c' hc' => absurd hc' (h e' he' c'), nofun⟩
  | some best =>
    obtain ⟨t, d⟩ := best
    obtain ⟨before, f, after, rfl, hd, rfl, hbefore, hafter⟩ := h
    simp only [laterExit]
    split
    · -- a later exit than the latest so far is later than all of them
      rename_i hlt
      have hlatest : ∀ e' ∈ before ++ f :: after, ∀ c', A e' c' → e'.exit ≤ f.exit :=
        List.forall_mem_append.2 ⟨fun e' he' c' hc' => Nat.le_of_lt (hbefore e' he' c' hc'),
          List.forall_mem_cons.2 ⟨fun _ _ => Nat.le_refl _, hafter⟩⟩
      exact ⟨before ++ f :: after, e, [], rfl, he, rfl,
        fun e' he' c' hc' => Nat.lt_of_le_of_lt (hlatest e' he' c' hc') hlt, nofun⟩
    · rename_i hle
      exact ⟨before, f, after ++ [e], by simp, hd, rfl, hbefore, List.forall_mem_append.2
        ⟨hafter, List.forall_mem_singleton.2 fun _ _ => Nat.le_of_not_lt hle⟩⟩

/-- One more piece of evidence accuses nobody. -/
theorem Candidate.irrelevant {best : Option (Nat × String)} {e : Evidence} (h : Candidate A l best)
    (he : ∀ c, ¬ A e c) : Candidate A (l ++ [e]) best := by
  cases best with
  | none => exact List.forall_mem_append.2 ⟨h, List.forall_mem_singleton.2 he⟩
  | some best =>
    obtain ⟨before, f, after, rfl, hd, hexit, hbefore, hafter⟩ := h
    exact ⟨before, f, after ++ [e], by simp, hd, hexit, hbefore, List.forall_mem_append.2
      ⟨hafter, List.forall_mem_singleton.2 fun c hc => absurd hc (he c)⟩⟩

/-- What the pass has found is who is convicted. -/
theorem Candidate.found {best : Option (Nat × String)} (h : Candidate A l best)
    (hA : ∀ {e c c'}, A e c → A e c' → c = c') :
    (best.map (·.2) = none ↔ ∀ e ∈ l, ∀ c, ¬ A e c) ∧
      ∀ {c}, best.map (·.2) = some c ↔ Convicted A l c := by
  cases best with
  | none =>
    refine ⟨iff_of_true rfl h, iff_of_false nofun ?_⟩
    rintro ⟨before, e, after, rfl, hc, -⟩
    exact h e (List.mem_append_right before List.mem_cons_self) _ hc
  | some best =>
    obtain ⟨t, d⟩ := best
    obtain ⟨before, e, after, rfl, hd, rfl, hbefore, hafter⟩ := h
    have hconvicted : Convicted A (before ++ e :: after) d :=
      ⟨before, e, after, rfl, hd, hbefore, hafter⟩
    refine ⟨iff_of_false nofun fun hnone => ?nobody, fun heq => ?found, fun hc => ?only⟩
    case nobody => exact hnone e (List.mem_append_right before List.mem_cons_self) d hd
    case found =>
      cases heq
      exact hconvicted
    case only => exact congrArg some (hconvicted.unique hc hA)

/-! ### The search -/

/-- Look at one more piece of evidence. -/
def consider (a : Arbiter) (name : String) (released deadline : Nat) (best : Option (Nat × String))
    (e : Evidence) : Option (Nat × String) :=
  match a.accused? name released deadline e with
  | some c => laterExit best e.exit c
  | none => best

/-- The search is one pass over all evidence. -/
theorem cause?_eq (hr : a.tasks.get? name = some r) (released : Nat) (s : Snapshot) :
    a.cause? name released s =
      (s.evidence.foldl (a.consider name released r.deadline) none).map (·.2) := by
  simp only [cause?, hr, Snapshot.evidence, List.foldl_append, List.foldl_map]
  congr 2
  · funext best t
    simp only [consider, accused?, Within]
    grind [Evidence.exit]
  · congr 1
    funext best j
    simp only [consider, accused?, Within]
    grind [Evidence.exit]

theorem candidate_consider (a : Arbiter) (name : String) (released deadline : Nat)
    (l : List Evidence) :
    Candidate (a.Accuses name released deadline) l
      (l.foldl (a.consider name released deadline) none) := by
  induction l using List.reverseRecOn with
  | nil => exact nofun
  | append_singleton l e ih =>
    simp only [List.foldl_append, List.foldl_cons, List.foldl_nil, consider]
    split
    case h_1 c hc => exact ih.later (accused?_eq_some_iff.1 hc)
    case h_2 hnone =>
      refine ih.irrelevant fun c hc => ?_
      exact nomatch hnone.symm.trans (accused?_eq_some_iff.2 hc)

/-- What the search for the cause of a missed deadline finds, whatever the tasks and the monitoring
data.

Nobody is found exactly if no piece of evidence accuses anybody.  Otherwise the task is found that
is accused by the latest exit, and by the first of these if several jobs ended at that instant;
recorded jobs come before terminated ones.  It is always another supervised task. -/
theorem cause?_latest_exit (hr : a.tasks.get? name = some r) (released : Nat) (s : Snapshot) :
    (a.cause? name released s = none ↔
      ∀ e ∈ s.evidence, ∀ c, ¬ a.Accuses name released r.deadline e c) ∧
    (∀ c, a.cause? name released s = some c ↔
      Convicted (a.Accuses name released r.deadline) s.evidence c) ∧
    ∀ c, a.cause? name released s = some c → c ≠ name ∧ a.tasks.contains c = true := by
  have hcandidate := candidate_consider a name released r.deadline s.evidence
  obtain ⟨hnobody, hsomebody⟩ := hcandidate.found fun h h' => h.unique h'
  rw [← cause?_eq hr] at hnobody hsomebody
  exact ⟨hnobody, fun _ => hsomebody, fun c hc => ⟨cause?_ne hc, contains_cause? hc⟩⟩

/-- Three jobs that end while a job of `a` runs that was released at 1000, two of them at its very
deadline.  The newest job of `c` has number 4. -/
def coincidence : Snapshot where
  now := 12000
  jobs := [{ id := 4, task := "c", core := 0, arrival := 500, exit := 4000, execution := 0 },
    { id := 2, task := "b", core := 0, arrival := 500, exit := 11000, execution := 0 }]
  terminated := [⟨4, 11000⟩]

/-- The recorded job counts before the terminated one. -/
theorem cause?_coincidence :
    ∃ r, (contested .fairness).tasks.get? "a" = some r ∧
      (contested .fairness).cause? "a" 1000 coincidence = some "b" ∧
      Convicted ((contested .fairness).Accuses "a" 1000 r.deadline) coincidence.evidence "b" ∧
      ((contested .fairness).Accuses "a" 1000 r.deadline) (.terminated ⟨4, 11000⟩) "c" := by
  obtain ⟨r, hr⟩ := OrderedMap.contains_iff.1
    (show (contested .fairness).tasks.contains "a" = true by decide +kernel)
  have hdeadline : r.deadline = 10000 := by
    have h : ((contested .fairness).tasks.get? "a").map (·.deadline) = some 10000 := by
      decide +kernel
    rw [hr] at h
    exact Option.some.inj h
  have hb : (contested .fairness).cause? "a" 1000 coincidence = some "b" := by decide +kernel
  refine ⟨r, hr, hb, ((cause?_latest_exit hr 1000 coincidence).2.1 "b").1 hb, ?_⟩
  rw [hdeadline, ← accused?_eq_some_iff]
  decide +kernel

end Arbiter

end RealTime
