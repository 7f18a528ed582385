import OpenCmw.PriorityFifo

/-!
# The task queue of the thread pool

`createTask` takes its priority as `uint32_t` and stores it as `int32_t`, so
that priorities from `2 ^ 31` on become negative. `push` looks for the first
task with a smaller stored priority, and puts a task of priority zero at the
end. So tasks of negative priority stand behind those of positive priority
and among those of priority zero: they are popped in order among themselves,
but too late. `pop_isNext_iff` says exactly when the task that is popped is
the one `PriorityFifo.IsNext` asks for.
-/

namespace OpenCmw.ThreadPool

open List PriorityFifo

structure Task where
  id : UInt64
  priority : Int
  /-- The priority is an `int32_t`. -/
  int32 : -2 ^ 31 ≤ priority ∧ priority < 2 ^ 31
  deriving DecidableEq

def createTask (id : UInt64) (priority : UInt32) : Task where
  id
  priority := Int.bmod priority.toNat (2 ^ 32)
  int32 := by
    have hle := Int.le_bmod (x := priority.toNat) (m := 2 ^ 32) (by decide)
    have hlt := Int.bmod_lt (x := priority.toNat) (m := 2 ^ 32) (by decide)
    omega

variable (tasks : List Task) (job : Task)

def push : List Task :=
  if job.priority = 0 then tasks ++ [job]
  else
    tasks.takeWhile (fun task => ¬task.priority < job.priority) ++
      job :: tasks.dropWhile fun task => ¬task.priority < job.priority

/-- The priority that the task was created with. -/
def Task.requested (t : Task) : Nat := (t.priority % 2 ^ 32).toNat

theorem requested_createTask (id : UInt64) (priority : UInt32) :
    (createTask id priority).requested = priority.toNat := by
  simp only [Task.requested, createTask]
  have hlt : priority.toNat < 2 ^ 32 := priority.toNat_lt
  have hmod := Int.bmod_emod (x := priority.toNat) (m := 2 ^ 32)
  omega

/-- The highest priority has the lowest rank. -/
def rank (t : Task) : Nat := 2 ^ 32 - t.requested

/-- `operations` have been carried out: `taken` are the tasks popped and
`queued` those that are still to be, in the order of their `push`; the queue
is `tasks`. -/
inductive Reaches : (operations : List (Op Task)) → (taken queued tasks : List Task) → Prop
  | init : Reaches [] [] [] []
  | push {operations taken queued tasks} (job : Task) (h : Reaches operations taken queued tasks) :
      Reaches (operations ++ [.put job]) taken (queued ++ [job]) (push tasks job)
  | pop {operations taken queued t tasks} (h : Reaches operations taken queued (t :: tasks)) :
      Reaches (operations ++ [.take]) (taken ++ [t]) (queued.erase t) tasks
  | popEmpty {operations taken queued} (h : Reaches operations taken queued []) :
      Reaches (operations ++ [.take]) taken queued []

/-- How tasks stand in the queue. -/
def Before (x y : Task) : Prop :=
  ((x.priority < 0 ↔ y.priority < 0) → y.priority ≤ x.priority) ∧
    (x.priority < 0 → 0 ≤ y.priority → y.priority = 0)

structure Holds (queued tasks : List Task) : Prop where
  filter_eq : ∀ p, tasks.filter (·.priority = p) = queued.filter (·.priority = p)
  sorted : tasks.Pairwise Before

variable {tasks job}

theorem push_eq (h : tasks.Pairwise Before) (job : Task) :
    ∃ before after, tasks = before ++ after ∧ push tasks job = before ++ job :: after ∧
      (∀ x ∈ before, Before x job) ∧ ∀ y ∈ after, Before job y ∧ y.priority ≠ job.priority := by
  unfold push
  split_ifs with hzero
  · refine ⟨tasks, [], (append_nil _).symm, rfl, fun x _ => ?_, forall_mem_nil _⟩
    unfold Before
    omega
  · refine ⟨_, _, takeWhile_append_dropWhile.symm, rfl, fun x hx => ?_, fun y hy => ?_⟩
    · have hle : ¬x.priority < job.priority := by simpa using mem_takeWhile_imp hx
      unfold Before
      omega
    · cases hdrop : tasks.dropWhile fun task => ¬task.priority < job.priority with
      | nil =>
        rw [hdrop] at hy
        cases hy
      | cons r rest =>
        have hr : r.priority < job.priority := by
          have hhead := head?_dropWhile_not (fun task : Task => decide ¬task.priority < job.priority) tasks
          rw [hdrop] at hhead
          simpa using hhead
        have hrest := h.sublist (dropWhile_sublist fun task => ¬task.priority < job.priority)
        rw [hdrop] at hy hrest
        rcases mem_cons.mp hy with rfl | hy
        · unfold Before
          omega
        · have hbef := (pairwise_cons.mp hrest).1 y hy
          unfold Before at hbef ⊢
          omega

variable {operations : List (Op Task)} {taken queued : List Task} {t : Task}

theorem Holds.push (h : Holds queued tasks) (job : Task) :
    Holds (queued ++ [job]) (push tasks job) := by
  obtain ⟨_, after, rfl, hpush, hbef, hafter⟩ := push_eq h.sorted job
  rw [hpush]
  obtain ⟨hsorted, hsorted', hcross⟩ := pairwise_append.mp h.sorted
  refine ⟨fun p => ?_, ?_⟩
  · rw [filter_append queued, ← h.filter_eq, filter_append, filter_append, filter_cons, append_assoc]
    by_cases hp : job.priority = p
    · have hnone : after.filter (·.priority = p) = [] :=
        filter_eq_nil_iff.mpr fun y hy => by simpa [← hp] using (hafter y hy).2
      simp [hp, hnone]
    · simp [hp]
  · refine pairwise_append.mpr ⟨hsorted, pairwise_cons.mpr ⟨fun y hy => (hafter y hy).1, hsorted'⟩, ?_⟩
    intro x hx y hy
    rcases mem_cons.mp hy with rfl | hy
    · exact hbef x hx
    · exact hcross x hx y hy

/-- What is queued is in the queue. -/
theorem Holds.mem (h : Holds queued tasks) {u : Task} (hu : u ∈ queued) : u ∈ tasks := by
  have hmem : u ∈ queued.filter (·.priority = u.priority) := mem_filter.mpr ⟨hu, by simp⟩
  rw [← h.filter_eq] at hmem
  exact mem_of_mem_filter hmem

/-- The task at the front came first of those of its priority. -/
theorem Holds.front (h : Holds queued (t :: tasks)) : ∃ before after,
    queued = before ++ t :: after ∧ queued.erase t = before ++ after ∧
    (∀ x ∈ before, x.priority ≠ t.priority) ∧
    after.filter (·.priority = t.priority) = tasks.filter (·.priority = t.priority) := by
  have hfilter := h.filter_eq t.priority
  rw [filter_cons_of_pos (by simp)] at hfilter
  obtain ⟨before, after, rfl, hbef, -, hafter⟩ := filter_eq_cons_iff.mp hfilter.symm
  have hne : ∀ x ∈ before, x.priority ≠ t.priority := fun x hx => by simpa using hbef x hx
  refine ⟨before, after, rfl, ?_, hne, hafter⟩
  rw [erase_append_right _ fun ht => hne t ht rfl, erase_cons_head]

theorem Holds.pop (h : Holds queued (t :: tasks)) : Holds (queued.erase t) tasks := by
  obtain ⟨before, _, rfl, herase, hbef, hafter⟩ := h.front
  refine ⟨fun p => ?_, (pairwise_cons.mp h.sorted).2⟩
  rw [herase, filter_append]
  by_cases hp : t.priority = p
  · have hnone : before.filter (·.priority = t.priority) = [] :=
      filter_eq_nil_iff.mpr fun x hx => by simpa using hbef x hx
    rw [← hp, hafter, hnone, nil_append]
  · have hfilter := h.filter_eq p
    rwa [filter_cons_of_neg (by simpa using hp), filter_append,
      filter_cons_of_neg (by simpa using hp)] at hfilter

theorem Reaches.holds (h : Reaches operations taken queued tasks) : Holds queued tasks := by
  induction h with
  | init => exact ⟨fun _ => rfl, .nil⟩
  | push job _ ih => exact ih.push job
  | pop _ ih => exact ih.pop
  | popEmpty _ ih => exact ih

/-- No task is lost or popped twice. -/
theorem Reaches.perm (h : Reaches operations taken queued tasks) :
    (operations.filterMap Op.put?).Perm (taken ++ tasks) := by
  induction h with
  | init => exact .nil
  | push job h ih =>
    obtain ⟨_, _, rfl, hpush, -⟩ := push_eq h.holds.sorted job
    rw [filterMap_append, hpush]
    refine (ih.append_right [job]).trans ?_
    rw [append_assoc]
    exact ((perm_append_singleton job _).trans perm_middle.symm).append_left _
  | pop _ ih =>
    rw [puts_snoc_take, append_assoc]
    exact ih
  | popEmpty _ ih =>
    rw [puts_snoc_take]
    exact ih

/-- The task that is popped is the next one exactly if it has one of the
priorities that become negative, or no task has. -/
theorem pop_isNext_iff (h : Reaches operations taken queued (t :: tasks)) :
    (IsNext rank queued t (queued.erase t) ↔
      2 ^ 31 ≤ t.requested ∨ ∀ u ∈ queued, u.requested < 2 ^ 31) ∧
      (operations.filterMap Op.put?).Perm (taken ++ t :: tasks) := by
  refine ⟨⟨?_, fun hcond => ?_⟩, h.perm⟩
  · intro hnext
    by_contra! hneg
    obtain ⟨ht, u, hu, hle⟩ := hneg
    have hrank := hnext.rank_le hu
    unfold rank Task.requested at *
    omega
  · have hle : ∀ u ∈ queued, rank t ≤ rank u := by
      intro u hu
      rcases mem_cons.mp (h.holds.mem hu) with rfl | hmem
      · exact le_rfl
      · have hbef := rel_of_pairwise_cons h.holds.sorted hmem
        have hcond := hcond.imp_right fun hall => hall u hu
        have htype := t.int32
        have hutype := u.int32
        unfold rank Task.requested Before at *
        omega
    obtain ⟨before, after, rfl, herase, hne, -⟩ := h.holds.front
    refine ⟨before, after, rfl, herase, fun x hx => ?_, fun x hx => ?_⟩
    · have hx' := hle x (mem_append_left _ hx)
      have hne := hne x hx
      have htype := t.int32
      have hxtype := x.int32
      unfold rank Task.requested at *
      omega
    · exact hle x (mem_append_right _ (mem_cons_of_mem _ hx))

/-- A task of priority `2 ^ 31` waits behind one of priority one. -/
theorem exists_pop_not_isNext : ∃ t u, Reaches [.put t, .put u] [] [t, u] [u, t] ∧
    u.requested < t.requested ∧ ¬IsNext rank [t, u] u [t] := by
  have hreaches : Reaches [.put (createTask 1 (2 ^ 31)), .put (createTask 2 1)] [] _ _ :=
    .push _ (.push _ .init)
  exact ⟨_, _, hreaches, by decide, fun hnext => absurd (hnext.rank_le mem_cons_self) (by decide)⟩

theorem pop_isNext_of_small : ∃ t u, Reaches [.put t, .put u] [] [t, u] [u, t] ∧
    IsNext rank [t, u] u [t] := by
  have hreaches : Reaches [.put (createTask 1 1), .put (createTask 2 2)] [] _ _ :=
    .push _ (.push _ .init)
  exact ⟨_, _, hreaches, (pop_isNext_iff hreaches).1.mpr (Or.inr (by decide))⟩

end OpenCmw.ThreadPool
