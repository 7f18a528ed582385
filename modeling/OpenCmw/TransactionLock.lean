import OpenCmw.Machine

/-!
# The lock of the transaction list

`stage`, `commit`, `getPendingTransactions`, `retireStaged` and `retireExpired`
take `_transactionListLock` in the same way before they touch the list:

    bool expected = false;
    while (std::atomic_compare_exchange_strong(&_transactionListLock, &expected, true)) ;

The loop goes on while the exchange succeeds and ends when it fails. It succeeds
on a free lock and fails on a taken one, so a thread takes the lock in one round
and leaves the loop in the next, and a thread that finds it taken by another
leaves at once.
-/

namespace OpenCmw.Settings

/-- Where a thread is with respect to the lock. -/
inductive LockPhase where
  | outside
  /-- In the loop, with its `expected`. -/
  | acquiring (expected : Bool)
  /-- Between the loop and the store that frees the lock. -/
  | inside
  deriving DecidableEq

structure TransactionLock (Thread : Type) where
  transactionListLock : Bool := false
  phase : Thread → LockPhase := fun _ => .outside

inductive LockEvent (Thread : Type) where
  | enter (t : Thread)
  | compareExchange (t : Thread)
  | store (t : Thread)

namespace TransactionLock

variable {Thread : Type} [DecidableEq Thread] (s : TransactionLock Thread)

def moveTo (t : Thread) (p : LockPhase) : TransactionLock Thread :=
  { s with phase := Function.update s.phase t p }

def step : LockEvent Thread → Option (TransactionLock Thread × List Empty)
  | .enter t => if s.phase t = .outside then some (s.moveTo t (.acquiring false), []) else none
  | .compareExchange t =>
    match s.phase t with
    | .acquiring expected =>
      if s.transactionListLock = expected then some ({ s with transactionListLock := true }, [])
      else some (s.moveTo t .inside, [])
    | _ => none
  | .store t =>
    if s.phase t = .inside then
      some ({ s.moveTo t .outside with transactionListLock := false }, [])
    else none

/-- At most one thread is between the loop and the store. -/
def Excludes : Prop :=
  ∀ t u, s.phase t = .inside → s.phase u = .inside → t = u

/-- The exchange finds the lock taken while another thread is inside. -/
def Joins : LockEvent Thread → Prop
  | .compareExchange t =>
    s.transactionListLock = true ∧ ∃ u, u ≠ t ∧ s.phase u = .inside
  | _ => False

variable {s s' : TransactionLock Thread} {t : Thread} {p : LockPhase} {out : List Empty}
  {trace : List (LockEvent Thread × List Empty)} {e : LockEvent Thread}

theorem phase_moveTo_self : (s.moveTo t p).phase t = p := Function.update_self ..

theorem phase_moveTo_of_ne {u : Thread} (h : u ≠ t) : (s.moveTo t p).phase u = s.phase u :=
  Function.update_of_ne h ..

theorem of_phase_moveTo {P : LockPhase → Prop} (hp : ¬P p) {u : Thread}
    (h : P ((s.moveTo t p).phase u)) : P (s.phase u) := by
  by_cases hut : u = t
  · rw [hut, phase_moveTo_self] at h
    exact absurd h hp
  · rwa [phase_moveTo_of_ne hut] at h

/-- What a step does: only an exchange that fails leads inside. -/
theorem step_eq_some (h : s.step e = some (s', out)) :
    (∃ t p, (p = .acquiring false ∨ p = .outside) ∧ s'.phase = (s.moveTo t p).phase ∧ ¬s.Joins e) ∨
      ∃ t expected, e = .compareExchange t ∧ s.phase t = .acquiring expected ∧
        (s.transactionListLock = expected ∧ s'.phase = s.phase ∨
          s.transactionListLock ≠ expected ∧ s' = s.moveTo t .inside) := by
  cases e with
  | enter t =>
    simp only [step] at h
    split_ifs at h
    cases h
    exact Or.inl ⟨t, _, Or.inl rfl, rfl, id⟩
  | compareExchange t =>
    simp only [step] at h
    split at h
    · next expected hphase =>
      refine Or.inr ⟨t, expected, rfl, hphase, ?_⟩
      split_ifs at h with hlock
      · cases h
        exact Or.inl ⟨hlock, rfl⟩
      · cases h
        exact Or.inr ⟨hlock, rfl⟩
    · cases h
  | store t =>
    simp only [step] at h
    split_ifs at h
    cases h
    exact Or.inl ⟨t, _, Or.inr rfl, rfl, id⟩

/-- In the loop `expected` is false: the exchange that changes it is the last. -/
theorem expected_of_run (h : Run step (fun _ _ => True) {} trace s) :
    ∀ t, s.phase t ≠ .acquiring true := by
  refine h.invariant (I := fun _ s => ∀ t, s.phase t ≠ .acquiring true) (fun t => by simp) ?_
  intro trace s e s' out hs _ hstep u hu
  obtain ⟨t, p, hp, hphase, -⟩ | ⟨t, _, -, -, ⟨-, hphase⟩ | ⟨-, rfl⟩⟩ := step_eq_some hstep
  · rw [hphase] at hu
    exact hs u (of_phase_moveTo (P := (· = .acquiring true)) (by rcases hp with rfl | rfl <;> simp) hu)
  · exact hs u (hphase ▸ hu)
  · exact hs u (of_phase_moveTo (P := (· = .acquiring true)) (by simp) hu)

/-- A thread that goes inside keeps the exclusion if it is alone. -/
theorem excludes_moveTo_inside_iff :
    (s.moveTo t .inside).Excludes ↔ ¬∃ u, u ≠ t ∧ s.phase u = .inside := by
  constructor
  · rintro hmoved ⟨u, hut, hu⟩
    exact hut (hmoved u t (by rw [phase_moveTo_of_ne hut, hu]) phase_moveTo_self)
  · intro halone
    have honly : ∀ u, (s.moveTo t .inside).phase u = .inside → u = t := fun u hu => by
      by_contra hut
      rw [phase_moveTo_of_ne hut] at hu
      exact halone ⟨u, hut, hu⟩
    exact fun u v hu hv => (honly u hu).trans (honly v hv).symm

end TransactionLock

end OpenCmw.Settings
