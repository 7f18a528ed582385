import Mathlib

/-!
# The partition point of a range

`std::ranges::partition_point` is the halving search: look at the middle
element, go on to its right if the predicate holds there and to its left if
not. On a range in which no element that satisfies the predicate follows one
that does not (`Partitioned`) it finds the place where the two kinds meet.

On any other range it finds *some* place. `splits_partitionPoint_iff` says
that this place never happens to separate the two kinds: the search is right
exactly on the ranges it is specified for.
-/

namespace OpenCmw

open List

variable {α : Type} {p : α → Bool}

/-- The number of elements before the place the search ends at. -/
def partitionPoint (p : α → Bool) (l : List α) : Nat :=
  match _hmiddle : l.drop (l.length / 2) with
  | [] => 0
  | x :: rest =>
    if p x then l.length / 2 + 1 + partitionPoint p rest
    else partitionPoint p (l.take (l.length / 2))
termination_by l.length
decreasing_by
  all_goals
    have hlen := congrArg length _hmiddle
    simp only [length_drop, length_cons, length_take] at hlen ⊢
    omega

/-- No element that satisfies `p` follows one that does not. -/
def Partitioned (p : α → Bool) (l : List α) : Prop :=
  l.Pairwise fun a b => p b = true → p a = true
  deriving Decidable

/-- The first `n` elements satisfy `p` and the others do not. -/
def SplitsAt (p : α → Bool) (l : List α) (n : Nat) : Prop :=
  (∀ x ∈ l.take n, p x = true) ∧ ∀ x ∈ l.drop n, p x = false

variable {l : List α} {n : Nat}

theorem SplitsAt.take_eq_filter (h : SplitsAt p l n) : l.take n = l.filter p := by
  have htake : (l.take n).filter p = l.take n := filter_eq_self.mpr h.1
  have hdrop : (l.drop n).filter p = [] :=
    filter_eq_nil_iff.mpr fun x hx => Bool.eq_false_iff.mp (h.2 x hx)
  conv_rhs => rw [← take_append_drop n l, filter_append, htake, hdrop, append_nil]

theorem Partitioned.of_splitsAt (h : SplitsAt p l n) : Partitioned p l := by
  rw [Partitioned, ← take_append_drop n l, pairwise_append]
  refine ⟨?_, ?_, fun a ha b _ _ => h.1 a ha⟩
  · exact pairwise_iff_forall_sublist.mpr fun hab _ => h.1 _ (hab.subset (by simp))
  · refine pairwise_iff_forall_sublist.mpr fun hab hb => ?_
    rw [h.2 _ (hab.subset (by simp))] at hb
    cases hb

/-- Around the middle element, a partitioned range is partitioned on both
sides, and the middle element decides one of them. -/
theorem Partitioned.around {l₁ l₂ : List α} {x : α} (h : Partitioned p (l₁ ++ x :: l₂)) :
    Partitioned p l₁ ∧ Partitioned p l₂ ∧ (p x = true → ∀ a ∈ l₁, p a = true) ∧
      (p x = false → ∀ b ∈ l₂, p b = false) := by
  obtain ⟨h₁, hx, hcross⟩ := pairwise_append.mp h
  obtain ⟨hx, h₂⟩ := pairwise_cons.mp hx
  refine ⟨h₁, h₂, fun hpx a ha => hcross a ha x mem_cons_self hpx, fun hpx b hb => ?_⟩
  by_contra hpb
  have hpx' := hx b hb (Bool.eq_true_of_not_eq_false hpb)
  rw [hpx] at hpx'
  cases hpx'

theorem partitionPoint_le_length (p : α → Bool) (l : List α) : partitionPoint p l ≤ l.length := by
  fun_induction partitionPoint p l with
  | case1 => exact Nat.zero_le _
  | case2 l x rest hmiddle hpx ih =>
    have hlen := congrArg length hmiddle
    simp only [length_drop, length_cons] at hlen
    omega
  | case3 l x rest hmiddle hpx ih =>
    rw [length_take] at ih
    omega

theorem Partitioned.splitsAt (h : Partitioned p l) : SplitsAt p l (partitionPoint p l) := by
  fun_induction partitionPoint p l with
  | case1 l hmiddle =>
    have hlen := congrArg length hmiddle
    simp only [length_drop, length_nil] at hlen
    obtain rfl : l = [] := length_eq_zero_iff.mp (by omega)
    simp [SplitsAt]
  | case2 l x rest hmiddle hpx ih =>
    have hl : l = l.take (l.length / 2) ++ x :: rest := by
      rw [← hmiddle, take_append_drop]
    have hlen : (l.take (l.length / 2)).length = l.length / 2 := by
      rw [length_take]
      omega
    rw [hl] at h
    obtain ⟨-, hrest, hleft, -⟩ := h.around
    obtain ⟨htake, hdrop⟩ := ih hrest
    generalize l.length / 2 = half at hl hlen hleft
    generalize l.take half = left at hl hlen hleft
    subst hl hlen
    have hcut : left.length + 1 + partitionPoint p rest
        = left.length + (partitionPoint p rest + 1) := by omega
    rw [SplitsAt, hcut, take_length_add_append, drop_length_add_append,
      take_succ_cons, drop_succ_cons]
    refine ⟨fun y hy => ?_, hdrop⟩
    rcases mem_append.mp hy with hy | hy
    · exact hleft hpx y hy
    · rcases mem_cons.mp hy with rfl | hy
      · exact hpx
      · exact htake y hy
  | case3 l x rest hmiddle hpx ih =>
    have hl : l = l.take (l.length / 2) ++ x :: rest := by
      rw [← hmiddle, take_append_drop]
    have hpp := partitionPoint_le_length p (l.take (l.length / 2))
    rw [hl] at h
    obtain ⟨hleft, -, -, hright⟩ := h.around
    have hpx : p x = false := Bool.eq_false_of_not_eq_true hpx
    obtain ⟨htake, hdrop⟩ := ih hleft
    generalize l.take (l.length / 2) = left at hl hpp htake hdrop
    subst hl
    rw [SplitsAt, take_append_of_le_length hpp, drop_append_of_le_length hpp]
    refine ⟨htake, fun y hy => ?_⟩
    rcases mem_append.mp hy with hy | hy
    · exact hdrop y hy
    · rcases mem_cons.mp hy with rfl | hy
      · exact hpx
      · exact hright hpx y hy

theorem splits_partitionPoint_iff : SplitsAt p l (partitionPoint p l) ↔ Partitioned p l :=
  ⟨Partitioned.of_splitsAt, Partitioned.splitsAt⟩

/-- What is left behind the place is what fails `p` only if the place
separates the two kinds. -/
theorem splitsAt_iff_drop_eq_filter : SplitsAt p l n ↔ l.drop n = l.filter fun x => !p x := by
  have hfilter : (l.filter fun x => !p x)
      = (l.take n).filter (fun x => !p x) ++ (l.drop n).filter fun x => !p x := by
    rw [← filter_append, take_append_drop]
  constructor
  · intro h
    have htake : (l.take n).filter (fun x => !p x) = [] :=
      filter_eq_nil_iff.mpr fun x hx => by simp [h.1 x hx]
    have hdrop : (l.drop n).filter (fun x => !p x) = l.drop n :=
      filter_eq_self.mpr fun x hx => by simp [h.2 x hx]
    rw [hfilter, htake, hdrop, nil_append]
  · intro h
    have hfail : ∀ x ∈ l.drop n, p x = false := by
      intro x hx
      rw [h] at hx
      simpa using (mem_filter.mp hx).2
    have hdrop : (l.drop n).filter (fun x => !p x) = l.drop n :=
      filter_eq_self.mpr fun x hx => by simp [hfail x hx]
    rw [hdrop] at hfilter
    have htake : (l.take n).filter (fun x => !p x) = [] := by
      have hlen := congrArg length (h.trans hfilter)
      rw [length_append] at hlen
      exact length_eq_zero_iff.mp (by omega)
    refine ⟨fun x hx => ?_, hfail⟩
    simpa using filter_eq_nil_iff.mp htake x hx

end OpenCmw
