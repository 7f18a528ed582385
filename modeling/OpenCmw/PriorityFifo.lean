import Mathlib

/-!
# Stable priority queues from one FIFO per priority

The abstract queue is the list of what is queued, in the order of arrival;
`IsNext` singles out the entry of the least rank that came first. The
implementation is a list of labelled FIFO queues, one per rank: `enqueueAt`
appends to one of them, `dequeue` takes the head of the first that is not
empty. `Holds` ties the two together - queue `i` is what is queued with rank
`i`, in order - and it is all that the two operations have to keep.

`StableRun` is the abstract queue's behaviour over a whole sequence of
operations: what was taken and what is still queued.
-/

namespace OpenCmw.PriorityFifo

open List

variable {κ α : Type}

/-! ## The abstract queue -/

/-- Of `queued`, `a` has the least rank and came first among those; `rest`
is what remains. -/
def IsNext (rank : α → Nat) (queued : List α) (a : α) (rest : List α) : Prop :=
  ∃ before after, queued = before ++ a :: after ∧ rest = before ++ after ∧
    (∀ x ∈ before, rank a < rank x) ∧ ∀ x ∈ after, rank a ≤ rank x

variable {a : α}

theorem IsNext.perm {rank : α → Nat} {queued rest : List α}
    (h : IsNext rank queued a rest) : queued.Perm (a :: rest) := by
  obtain ⟨_, _, rfl, rfl, -, -⟩ := h
  exact perm_middle

theorem IsNext.rank_le {rank : α → Nat} {queued rest : List α} (h : IsNext rank queued a rest)
    {x : α} (hx : x ∈ queued) : rank a ≤ rank x := by
  obtain ⟨_, _, rfl, -, hbef, hafter⟩ := h
  rcases mem_append.mp hx with hx | hx
  · exact (hbef x hx).le
  · rcases mem_cons.mp hx with rfl | hx
    · exact le_rfl
    · exact hafter x hx

inductive Op (α : Type) where
  | put (a : α)
  | take
  deriving DecidableEq

def Op.put? : Op α → Option α
  | put a => some a
  | take => none

theorem puts_snoc_take (ops : List (Op α)) :
    (ops ++ [Op.take]).filterMap Op.put? = ops.filterMap Op.put? := by
  rw [filterMap_append]
  exact append_nil _

/-- What a stable priority queue does with a sequence of operations, a take
from the empty queue doing nothing. -/
inductive StableRun (rank : α → Nat) : List (Op α) → (taken queued : List α) → Prop
  | nil : StableRun rank [] [] []
  | put {ops taken queued} (a : α) (h : StableRun rank ops taken queued) :
      StableRun rank (ops ++ [.put a]) taken (queued ++ [a])
  | takeEmpty {ops taken} (h : StableRun rank ops taken []) :
      StableRun rank (ops ++ [.take]) taken []
  | take {ops taken queued rest} {a : α} (h : StableRun rank ops taken queued)
      (hnext : IsNext rank queued a rest) :
      StableRun rank (ops ++ [.take]) (taken ++ [a]) rest

/-- Nothing put is lost or taken twice. -/
theorem StableRun.perm {rank : α → Nat} {ops : List (Op α)} {taken queued : List α}
    (h : StableRun rank ops taken queued) : (ops.filterMap Op.put?).Perm (taken ++ queued) := by
  induction h with
  | nil => exact List.Perm.nil
  | put a _ ih =>
    rw [filterMap_append, ← append_assoc]
    exact ih.append_right [a]
  | takeEmpty _ ih =>
    rw [puts_snoc_take]
    exact ih
  | @take ops taken queued rest a _ hnext ih =>
    rw [puts_snoc_take, append_assoc]
    exact ih.trans (hnext.perm.append_left taken)

/-! ## The FIFO queues -/

abbrev Queues (κ α : Type) := List (κ × List α)

def enqueueAt (q : Queues κ α) (i : Nat) (a : α) : Queues κ α :=
  q.modify i fun e => (e.1, e.2 ++ [a])

/-- The head of the first queue that is not empty. -/
def dequeue : Queues κ α → Option (α × Queues κ α)
  | [] => none
  | (k, a :: as) :: q => some (a, (k, as) :: q)
  | (k, []) :: q => (dequeue q).map fun r => (r.1, (k, []) :: r.2)

theorem dequeue_eq_none_iff : ∀ {q : Queues κ α}, dequeue q = none ↔ ∀ e ∈ q, e.2 = []
  | [] => by simp [dequeue]
  | (k, a :: as) :: q => by simp [dequeue]
  | (k, []) :: q => by simp [dequeue, dequeue_eq_none_iff (q := q)]

theorem dequeue_eq_some : ∀ {q q' : Queues κ α} {a : α}, dequeue q = some (a, q') →
    ∃ pre k as post, q = pre ++ (k, a :: as) :: post ∧
      q' = pre ++ (k, as) :: post ∧ ∀ e ∈ pre, e.2 = []
  | (k, a :: as) :: q, q', a', h => by
    cases h
    exact ⟨[], k, as, q, rfl, rfl, by simp⟩
  | (k, []) :: q, q', a', h => by
    obtain ⟨⟨b, r⟩, hr, heq⟩ := Option.map_eq_some_iff.mp h
    cases heq
    obtain ⟨pre, k', as, post, rfl, hq', hpre⟩ := dequeue_eq_some hr
    refine ⟨(k, []) :: pre, k', as, post, rfl, by rw [hq', cons_append], ?_⟩
    rintro e (_ | ⟨_, he⟩)
    · rfl
    · exact hpre e he

/-- All that is queued. -/
def contents (q : Queues κ α) : List α := q.flatMap (·.2)

theorem contents_enqueueAt : ∀ {q : Queues κ α} {i : Nat}, i < q.length →
    (contents (enqueueAt q i a)).Perm (a :: contents q)
  | e :: q, 0, _ => by
    have hq : contents (enqueueAt (e :: q) 0 a) = (e.2 ++ [a]) ++ contents q := rfl
    rw [hq, append_assoc, singleton_append]
    exact perm_middle
  | e :: q, i + 1, h => by
    have hq : contents (enqueueAt (e :: q) (i + 1) a) = e.2 ++ contents (enqueueAt q i a) := rfl
    rw [hq]
    exact ((contents_enqueueAt (Nat.lt_of_succ_lt_succ h)).append_left e.2).trans
      perm_middle

theorem contents_dequeue {q q' : Queues κ α} (h : dequeue q = some (a, q')) :
    (contents q).Perm (a :: contents q') := by
  obtain ⟨_, k, _, _, rfl, rfl, -⟩ := dequeue_eq_some h
  simp only [contents, flatMap_append, flatMap_cons, cons_append]
  exact perm_middle

/-! ## What the queues hold -/

/-- Queue `i` is what is queued with rank `i`, in the order of arrival. -/
structure Holds (rank : α → Nat) (queued : List α) (q : Queues κ α) : Prop where
  rank_lt : ∀ x ∈ queued, rank x < q.length
  queue_eq : ∀ i e, q[i]? = some e → e.2 = queued.filter fun x => rank x = i

variable {rank : α → Nat} {queued : List α} {q : Queues κ α}

variable (h : Holds rank queued q)
include h

theorem Holds.enqueueAt (ha : rank a < q.length) :
    Holds rank (queued ++ [a]) (enqueueAt q (rank a) a) := by
  have hlen : (PriorityFifo.enqueueAt q (rank a) a).length = q.length :=
    length_modify ..
  refine ⟨fun x hx => ?_, fun i e he => ?_⟩
  · rw [hlen]
    rcases mem_append.mp hx with hx | hx
    · exact h.rank_lt x hx
    · rw [mem_singleton.mp hx]
      exact ha
  · rw [PriorityFifo.enqueueAt, getElem?_modify] at he
    obtain ⟨e₀, he₀, rfl⟩ := Option.map_eq_some_iff.mp he
    have hold := h.queue_eq i e₀ he₀
    rw [filter_append, ← hold]
    by_cases hi : rank a = i
    · simp [hi]
    · simp [hi]

/-- A dequeue finds the next entry, and the queues hold the rest. -/
theorem Holds.dequeue {q' : Queues κ α} (hd : dequeue q = some (a, q')) :
    ∃ rest, IsNext rank queued a rest ∧ Holds rank rest q' := by
  obtain ⟨pre, k, as, post, rfl, rfl, hpre⟩ := dequeue_eq_some hd
  have hmid := h.queue_eq pre.length (k, a :: as) (by simp)
  obtain ⟨before, after, rfl, hbef, hrank, hafter⟩ :=
    filter_eq_cons_iff.mp hmid.symm
  have hrank : rank a = pre.length := of_decide_eq_true hrank
  have hlow : ∀ x ∈ before ++ a :: after, pre.length ≤ rank x := by
    intro x hx
    by_contra hlt
    have hlt := not_le.mp hlt
    have hget : (pre ++ (k, a :: as) :: post)[rank x]? = some pre[rank x] := by
      rw [getElem?_append_left hlt, getElem?_eq_getElem hlt]
    have hemp := h.queue_eq _ _ hget
    rw [hpre _ (getElem_mem hlt)] at hemp
    have hmem : x ∈ (before ++ a :: after).filter fun y => rank y = rank x :=
      mem_filter.mpr ⟨hx, by simp⟩
    rw [← hemp] at hmem
    cases hmem
  refine ⟨before ++ after, ⟨before, after, rfl, rfl, fun x hx => ?_, fun x hx => ?_⟩,
    fun x hx => ?_, fun i e he => ?_⟩
  · have hle := hlow x (by simp [hx])
    have hne : rank x ≠ pre.length := by simpa using hbef x hx
    omega
  · have hle := hlow x (by simp [hx])
    omega
  · have hlt := h.rank_lt x (by
      rcases mem_append.mp hx with hx | hx
      · simp [hx]
      · simp [hx])
    simpa using hlt
  · by_cases hi : i = pre.length
    · subst hi
      have he : e = (k, as) := by simpa using he.symm
      have hnone : before.filter (fun x => rank x = pre.length) = [] :=
        filter_eq_nil_iff.mpr fun x hx => by simpa using hbef x hx
      rw [he, filter_append, hnone, nil_append, ← hafter]
    · have hsame : (pre ++ (k, a :: as) :: post)[i]? = some e := by
        rw [← he]
        rcases Nat.lt_or_gt_of_ne hi with hlt | hgt
        · rw [getElem?_append_left hlt, getElem?_append_left hlt]
        · obtain ⟨j, hj⟩ : ∃ j, i - pre.length = j + 1 := ⟨i - pre.length - 1, by omega⟩
          rw [getElem?_append_right hgt.le, getElem?_append_right hgt.le, hj,
            getElem?_cons_succ, getElem?_cons_succ]
      rw [h.queue_eq i e hsame, filter_append, filter_append,
        filter_cons_of_neg (by simpa [hrank] using fun h => hi h.symm)]

theorem Holds.dequeue_ne_none (hne : queued ≠ []) : PriorityFifo.dequeue q ≠ none := by
  intro hnone
  obtain ⟨x, hx⟩ := exists_mem_of_ne_nil queued hne
  have hlt := h.rank_lt x hx
  have hemp := h.queue_eq (rank x) q[rank x] (getElem?_eq_getElem hlt)
  rw [dequeue_eq_none_iff.mp hnone _ (getElem_mem hlt)] at hemp
  have hmem : x ∈ queued.filter fun y => rank y = rank x :=
    mem_filter.mpr ⟨hx, by simp⟩
  rw [← hemp] at hmem
  cases hmem

/-! ## Counting -/

omit h in
theorem filter_ranks_perm (rank : α → Nat) (l : List α) : ∀ n,
    ((range n).flatMap fun i => l.filter fun x => rank x = i).Perm
      (l.filter fun x => rank x < n)
  | 0 => by simp
  | n + 1 => by
    rw [range_succ, flatMap_append, flatMap_singleton]
    refine ((filter_ranks_perm rank l n).append_right _).trans ?_
    have hsplit := filter_append_perm (fun x => decide (rank x < n))
      (l.filter fun x => rank x < n + 1)
    rw [filter_filter, filter_filter] at hsplit
    refine List.Perm.trans (List.Perm.of_eq ?_) hsplit
    congr 1
    · refine filter_congr fun x _ => ?_
      by_cases hx : rank x < n
      · simp [hx, Nat.lt_succ_of_lt hx]
      · simp [hx]
    · refine filter_congr fun x _ => ?_
      rw [← Bool.decide_coe (!decide (rank x < n) && decide (rank x < n + 1))]
      refine decide_eq_decide.mpr ?_
      simp only [Bool.and_eq_true, Bool.not_eq_true', decide_eq_true_eq, decide_eq_false_iff_not]
      omega

/-- The queues hold as many entries as are queued. -/
theorem Holds.sum_length : (q.map fun e => e.2.length).sum = queued.length := by
  have hq : q.map (fun e => e.2) =
      (range q.length).map fun i => queued.filter fun x => rank x = i := by
    refine ext_getElem (by simp) fun i hi _ => ?_
    have hi : i < q.length := by simpa using hi
    simpa using h.queue_eq i q[i] (getElem?_eq_getElem hi)
  have hall : queued.filter (fun x => rank x < q.length) = queued :=
    filter_eq_self.mpr fun x hx => by simpa using h.rank_lt x hx
  have hperm := filter_ranks_perm rank queued q.length
  rw [hall, flatMap_def, ← hq] at hperm
  have hlen := hperm.length_eq
  rw [length_flatten, map_map] at hlen
  exact hlen

end OpenCmw.PriorityFifo
