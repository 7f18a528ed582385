import OpenCmw.Machine

/-!
# The reader-writer lock

`_activeReaderCount` counts read holders up and write holders down. A thread
acquires the lock by a load and compare-exchanges with the value it expects,
which it first brings to the side of its kind: not negative to read, not
positive to write. So an exchange that succeeds finds no holder of the other
kind, wherever the expected value came from.

The load is relaxed and may return any value. The counter is an `Int`, as it
would take `2 ^ 63` holders to leave `int64_t`.
-/

namespace OpenCmw.ReaderWriterLock

open Function (update)
open List

inductive LockType where
  | read
  | write
  deriving DecidableEq

/-- What a holder adds to the counter. -/
def LockType.delta : LockType → Int
  | read => 1
  | write => -1

/-- The value expected after `value` was seen. -/
def LockType.clamp (value : Int) : LockType → Int
  | read => if value < 0 then 0 else value
  | write => if value > 0 then 0 else value

inductive Call where
  | tryLock
  | lock

/-- A call before its next compare-exchange. -/
structure Acquiring where
  call : Call
  lockType : LockType
  expected : Int

variable {Thread : Type}

structure State (Thread : Type) where
  activeReaderCount : Int := 0
  acquiring : Thread → Option Acquiring := fun _ => none
  /-- The locks that are held, with the threads that took them. -/
  held : List (Thread × LockType) := []

inductive Event (Thread : Type) where
  | load (t : Thread) (call : Call) (lockType : LockType) (value : Int)
  | compareExchange (t : Thread)
  | unlock (t : Thread) (lockType : LockType)

inductive Output (Thread : Type) where
  | returned (t : Thread) (call : Call) (lockType : LockType) (value : Int)
  | unlocked (t : Thread) (lockType : LockType) (value : Int)

def holders (held : List (Thread × LockType)) (lockType : LockType) : Nat :=
  held.countP (·.2 = lockType)

theorem holders_cons {t : Thread} (held : List (Thread × LockType)) (lockType k : LockType) :
    holders ((t, lockType) :: held) k = holders held k + if lockType = k then 1 else 0 := by
  simp [holders, countP_cons]

variable [DecidableEq Thread]

/-- A thread makes one call at a time and unlocks what it has locked. -/
def step (s : State Thread) : Event Thread → Option (State Thread × List (Output Thread))
  | .load t call lockType value =>
    if s.acquiring t = none then
      let expected := lockType.clamp value
      some ({ s with acquiring := update s.acquiring t (some { call, lockType, expected }) }, [])
    else none
  | .compareExchange t =>
    (s.acquiring t).map fun a =>
      let desired := a.expected + a.lockType.delta
      if s.activeReaderCount = a.expected then
        ({ activeReaderCount := desired
           acquiring := update s.acquiring t none
           held := (t, a.lockType) :: s.held },
          [.returned t a.call a.lockType (match a.call with
            | .tryLock => 1
            | .lock => desired)])
      else
        match a.call with
        | .tryLock => ({ s with acquiring := update s.acquiring t none },
          [.returned t .tryLock a.lockType 0])
        | .lock =>
          let expected := a.lockType.clamp s.activeReaderCount
          ({ s with acquiring := update s.acquiring t (some { a with expected }) }, [])
  | .unlock t lockType =>
    if s.acquiring t = none ∧ (t, lockType) ∈ s.held then
      let value := s.activeReaderCount - lockType.delta
      some ({ s with activeReaderCount := value, held := s.held.erase (t, lockType) },
        [.unlocked t lockType value])
    else none

structure Invariant (s : State Thread) : Prop where
  count : s.activeReaderCount = holders s.held .read - holders s.held .write
  exclusive : holders s.held .read = 0 ∨ holders s.held .write = 0
  /-- What is expected is on the side of the kind. -/
  clamped : ∀ t, ∀ a ∈ s.acquiring t, 0 ≤ a.lockType.delta * a.expected

theorem holders_erase {t : Thread} {held : List (Thread × LockType)} {lockType : LockType}
    (h : (t, lockType) ∈ held) (k : LockType) :
    holders held k = holders (held.erase (t, lockType)) k + if lockType = k then 1 else 0 := by
  rw [← holders_cons (t := t)]
  exact (perm_cons_erase h).countP_eq _

theorem delta_mul_clamp (lockType : LockType) (value : Int) :
    0 ≤ lockType.delta * lockType.clamp value := by
  cases lockType with
  | read | write =>
    simp only [LockType.delta, LockType.clamp]
    split_ifs <;> omega

variable {s s' : State Thread} {t : Thread} {e : Event Thread} {out : List (Output Thread)}

theorem Invariant.clamped_update (h : Invariant s) {o : Option Acquiring}
    (ho : ∀ a ∈ o, 0 ≤ a.lockType.delta * a.expected) (u : Thread) :
    ∀ a ∈ update s.acquiring t o u, 0 ≤ a.lockType.delta * a.expected := by
  by_cases hut : u = t
  · rwa [hut, Function.update_self]
  · rw [Function.update_of_ne hut]
    exact h.clamped u

theorem Invariant.step (h : Invariant s) (hstep : step s e = some (s', out)) : Invariant s' := by
  have hcnt := h.count
  have hexclusive := h.exclusive
  cases e with
  | load t call lockType value =>
    simp only [ReaderWriterLock.step] at hstep
    split_ifs at hstep
    cases hstep
    refine ⟨hcnt, hexclusive, h.clamped_update fun a ha => ?_⟩
    cases ha
    exact delta_mul_clamp ..
  | compareExchange t =>
    obtain ⟨a, ha, heq⟩ := Option.map_eq_some_iff.mp hstep
    dsimp only at heq
    split_ifs at heq with hexp
    · cases heq
      have hside := h.clamped t a ha
      cases hkind : a.lockType with
      | read | write =>
        rw [hkind, LockType.delta] at hside
        refine ⟨?_, ?_, h.clamped_update nofun⟩ <;> simp [holders_cons, LockType.delta] <;> omega
    · split at heq
      · cases heq
        exact ⟨hcnt, hexclusive, h.clamped_update nofun⟩
      · cases heq
        refine ⟨hcnt, hexclusive, h.clamped_update fun a' ha' => ?_⟩
        cases ha'
        exact delta_mul_clamp ..
  | unlock t lockType =>
    simp only [ReaderWriterLock.step] at hstep
    split_ifs at hstep with hheld
    cases hstep
    have hread := holders_erase hheld.2 .read
    have hwrite := holders_erase hheld.2 .write
    cases lockType with
    | read | write =>
      simp only [reduceCtorEq, if_true, if_false] at hread hwrite
      refine ⟨?_, ?_, h.clamped⟩ <;> dsimp only [LockType.delta] <;> omega

/-- The counter is the number of read holders less that of write holders, one
of which is zero, and `lock` returns from an exchange that has succeeded. -/
theorem lock_exact {trace : List (Event Thread × List (Output Thread))}
    (h : Run step (fun _ _ => True) {} trace s) :
    s.activeReaderCount = holders s.held .read - holders s.held .write ∧
      (holders s.held .read = 0 ∨ holders s.held .write = 0) ∧
      ∀ e s' out t lockType value, step s e = some (s', out) →
        .returned t .lock lockType value ∈ out →
        e = .compareExchange t ∧ s.activeReaderCount + lockType.delta = value ∧
          s'.activeReaderCount = value ∧ s'.held = (t, lockType) :: s.held := by
  have hinv : Invariant s :=
    h.invariant (I := fun _ s => Invariant s) ⟨rfl, .inl rfl, nofun⟩ fun h _ hstep => h.step hstep
  refine ⟨hinv.count, hinv.exclusive, fun e s' out t lockType value hstep hout => ?_⟩
  cases e with
  | load | unlock =>
    simp only [step] at hstep
    split_ifs at hstep
    cases hstep
    simp at hout
  | compareExchange u =>
    obtain ⟨a, -, heq⟩ := Option.map_eq_some_iff.mp hstep
    dsimp only at heq
    split_ifs at heq with hexp
    · cases heq
      cases hcall : a.call with
      | tryLock => simp [hcall] at hout
      | lock =>
        obtain ⟨rfl, rfl, rfl⟩ : t = u ∧ lockType = a.lockType ∧ value = _ := by simpa [hcall] using hout
        exact ⟨rfl, by rw [hexp], rfl, rfl⟩
    · split at heq <;> cases heq <;> simp at hout

theorem lock_exact_two_readers : ∃ s : State Bool,
    Run step (fun _ _ => True) {} [(.load false .lock .read 0, []), (.load true .lock .read (-1), []),
      (.compareExchange false, [.returned false .lock .read 1]), (.compareExchange true, []),
      (.compareExchange true, [.returned true .lock .read 2])] s ∧
    s.activeReaderCount = 2 ∧ (holders s.held .read = 0 ∨ holders s.held .write = 0) := by
  have hexec : exec step (fun _ _ => True) {} [Event.load false .lock .read 0,
    .load true .lock .read (-1), .compareExchange false, .compareExchange true,
    .compareExchange true] = some (_, _) := rfl
  have hrun := Run.of_exec hexec
  exact ⟨_, hrun, rfl, (lock_exact hrun).2.1⟩

end OpenCmw.ReaderWriterLock
