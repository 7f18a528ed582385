import OpenCmw.Bytes

/-!
# Readers over a byte buffer

A reader walks through memory by a position. Below the size of the buffer
the memory holds the buffer's bytes; what a read past it finds is up to
the machine: some byte, or nothing that a program may look at. Both are
kept here, so that a statement about a reader can quantify over them.

The one notion the proofs use is `Reads r xs a`: wherever the bytes `xs`
stand in a buffer, the reader `r` started in front of them consumes
exactly them and returns `a`. It says nothing of what stands before or
behind. `Reads` composes along `bind` (`Reads.bind`) and over repetition
(`Reads.times`), so a decoder is verified by following its text.

Numbers are little-endian: `leBytes k n` are the `k` low bytes of `n`,
and a signed number is read by `Int.bmod`, which is what a conversion to
a signed machine type does.
-/

namespace OpenCmw

open Except (error)
open Relation (ReflTransGen)
open List Nat

/-! ## Memory and readers -/

/-- A buffer in memory: its bytes, and what a read at or past its size
finds (`none`: nothing that may be looked at). -/
structure Memory where
  data : Bytes
  beyond : Nat → Option UInt8

/-- How a reader stops without a result: with a read of memory that may not
be looked at, with something else that has no defined effect, or with an
exception. `outOfFuel` is the model's own: a loop went through more rounds
than it was given. -/
inductive Halt (ε : Type)
  | outOfBounds
  | undefined
  | outOfFuel
  | thrown (e : ε)
  deriving DecidableEq, Repr

/-- A reader: from a memory and a position to a result and a position. -/
abbrev ByteReader (ε α : Type) := ReaderT Memory (StateT Nat (Except (Halt ε))) α

namespace Memory

variable (m : Memory)

def size : Nat := m.data.length

def byteAt (i : Nat) : Option UInt8 :=
  match m.data[i]? with
  | some b => some b
  | none => m.beyond i

/-- The `n` bytes from position `p` on. -/
def bytesAt (m : Memory) : Nat → Nat → Option Bytes
  | _, 0 => some []
  | p, n + 1 => (m.byteAt p).bind fun b => (m.bytesAt (p + 1) n).map (b :: ·)

/-- The bytes `xs` stand at position `p` inside the buffer. -/
def At (p : Nat) (xs : Bytes) : Prop :=
  ∃ pre post, m.data = pre ++ xs ++ post ∧ pre.length = p

variable {m : Memory} {p : Nat} {xs ys : Bytes}

theorem At.le_size (h : m.At p xs) : p + xs.length ≤ m.size := by
  obtain ⟨_, _, hdata, rfl⟩ := h
  rw [size, hdata]
  simp only [length_append]
  omega

theorem At.left (h : m.At p (xs ++ ys)) : m.At p xs := by
  obtain ⟨pre, post, hdata, hpre⟩ := h
  exact ⟨pre, ys ++ post, by simpa using hdata, hpre⟩

theorem At.right (h : m.At p (xs ++ ys)) : m.At (p + xs.length) ys := by
  obtain ⟨pre, post, hdata, rfl⟩ := h
  exact ⟨pre ++ xs, post, by simpa using hdata, by simp⟩

variable {b : UInt8}

theorem At.tail (h : m.At p (b :: xs)) : m.At (p + 1) xs := by
  rw [← singleton_append] at h
  exact h.right

theorem At.byteAt (h : m.At p (b :: xs)) : m.byteAt p = some b := by
  obtain ⟨_, _, hdata, rfl⟩ := h
  rw [Memory.byteAt, hdata]
  simp

theorem At.bytesAt : ∀ {xs : Bytes} {p : Nat}, m.At p xs → m.bytesAt p xs.length = some xs
  | [], _, _ => rfl
  | b :: xs, p, h => by
    rw [length_cons, Memory.bytesAt, h.byteAt, Option.bind_some, h.tail.bytesAt, Option.map_some]

/-- What follows a position inside the buffer begins with the bytes that
stand there. -/
theorem At.drop (h : m.At p xs) : ∃ post, m.data.drop p = xs ++ post := by
  obtain ⟨_, post, hdata, rfl⟩ := h
  exact ⟨post, by rw [hdata, append_assoc, drop_left]⟩

theorem at_of_getElem? (h : m.data[p]? = some b) : m.At p (b :: m.data.drop (p + 1)) := by
  obtain ⟨hlt, hb⟩ := List.getElem?_eq_some_iff.mp h
  refine ⟨m.data.take p, [], ?_, ?_⟩
  · rw [append_nil, ← hb, ← drop_eq_getElem_cons hlt, take_append_drop]
  · rw [length_take]
    exact min_eq_left hlt.le

/-- The `n` bytes from position `p` on are bytes of the buffer. -/
def Fits (p n : Nat) : Prop := n = 0 ∨ p + n ≤ m.size

theorem byteAt_isSome_iff (hm : ∀ i, m.beyond i = none) : (m.byteAt p).isSome ↔ p < m.size := by
  unfold byteAt
  cases hbyte : m.data[p]? with
  | none => simp [hm, size, List.getElem?_eq_none_iff.mp hbyte]
  | some b => simp [size, (List.getElem?_eq_some_iff.mp hbyte).1]

theorem fits_iff (hm : ∀ i, m.beyond i = none) : ∀ {p n : Nat}, m.Fits p n ↔ (m.bytesAt p n).isSome
  | _, 0 => iff_of_true (.inl rfl) rfl
  | p, n + 1 => by
    have hfirst := byteAt_isSome_iff (p := p) hm
    have hrest := fits_iff hm (p := p + 1) (n := n)
    unfold Fits at *
    rw [bytesAt]
    cases hbyte : m.byteAt p with
    | none =>
      rw [hbyte] at hfirst
      have hp : ¬ p < m.size := fun hp => Bool.false_ne_true (hfirst.mpr hp)
      exact iff_of_false (by omega) Bool.false_ne_true
    | some b =>
      rw [hbyte] at hfirst
      have hp := hfirst.mp rfl
      rw [Option.bind_some, Option.isSome_map, ← hrest]
      omega

/-- A whole buffer stands at position 0. -/
theorem at_data (m : Memory) : m.At 0 m.data := ⟨[], [], by simp, rfl⟩

end Memory

namespace ByteReader

variable {ε α β : Type}

theorem bind_apply (r : ByteReader ε α) (f : α → ByteReader ε β) (m : Memory) (p : Nat) :
    (r >>= f) m p = (r m p).bind fun s => f s.1 m s.2 := rfl

variable {m : Memory} {p q : Nat} {r : ByteReader ε α}

theorem bind_of_ok {p' : Nat} {a : α}
    (h : r m p = .ok (a, p')) (f : α → ByteReader ε β) : (r >>= f) m p = f a m p' := by
  rw [bind_apply, h]
  rfl

theorem bind_of_error {e : Halt ε}
    (h : r m p = .error e) (f : α → ByteReader ε β) : (r >>= f) m p = .error e := by
  rw [bind_apply, h]
  rfl

theorem map_of_ok {p' : Nat} {a : α}
    (h : r m p = .ok (a, p')) (f : α → β) : (f <$> r) m p = .ok (f a, p') := by
  rw [map_eq_pure_bind, bind_of_ok h]
  rfl

theorem map_of_error {e : Halt ε}
    (h : r m p = .error e) (f : α → β) : (f <$> r) m p = .error e := by
  rw [map_eq_pure_bind, bind_of_error h]

/-- What the parts of a sequence did when the whole has a result. -/
theorem bind_ok_iff {f : α → ByteReader ε β} {b : β} :
    (r >>= f) m p = .ok (b, q) ↔ ∃ a p', r m p = .ok (a, p') ∧ f a m p' = .ok (b, q) := by
  rw [bind_apply]
  cases h : r m p with
  | error e =>
    constructor
    · intro hb
      cases hb
    · rintro ⟨a, p', ha, -⟩
      cases ha
  | ok s =>
    constructor
    · intro hb
      exact ⟨s.1, s.2, rfl, hb⟩
    · rintro ⟨a, p', ha, hb⟩
      cases ha
      exact hb

theorem map_ok_iff {f : α → β} {b : β} :
    (f <$> r) m p = .ok (b, q) ↔ ∃ a, r m p = .ok (a, q) ∧ f a = b := by
  rw [map_eq_pure_bind, bind_ok_iff]
  constructor
  · rintro ⟨a, _, ha, hb⟩
    cases hb
    exact ⟨a, ha, rfl⟩
  · rintro ⟨a, ha, rfl⟩
    exact ⟨a, q, ha, rfl⟩

theorem pure_eq_ok {a b : α} : (pure a : ByteReader ε α) m p = .ok (b, q) ↔ a = b ∧ p = q := by
  constructor
  · intro h
    exact Prod.mk.inj (Except.ok.inj h)
  · rintro ⟨rfl, rfl⟩
    rfl

/-- Stop without a result. -/
def fail (e : Halt ε) : ByteReader ε α := fun _ _ => .error e

/-- The size of the buffer. -/
def size : ByteReader ε Nat := fun m p => .ok (m.size, p)

def position : ByteReader ε Nat := fun _ p => .ok (p, p)

def setPosition (q : Nat) : ByteReader ε Unit := fun _ _ => .ok ((), q)

theorem size_bind (f : Nat → ByteReader ε β) (m : Memory) (p : Nat) :
    (size >>= f) m p = f m.size m p := rfl

theorem position_bind (f : Nat → ByteReader ε β) (m : Memory) (p : Nat) :
    (position >>= f) m p = f p m p := rfl

theorem setPosition_bind (q : Nat) (f : Unit → ByteReader ε β) (m : Memory) (p : Nat) :
    (setPosition q >>= f) m p = f () m q := rfl

/-- The bytes of the buffer from the position on, as long as they satisfy
`accept`. -/
def span (accept : UInt8 → Bool) : ByteReader ε Bytes := fun m p =>
  .ok ((m.data.drop p).takeWhile accept, p)

/-- The next `n` bytes. -/
def take (n : Nat) : ByteReader ε Bytes := fun m p =>
  match m.bytesAt p n with
  | some bs => .ok (bs, p + n)
  | none => .error .outOfBounds

/-- `n` times the same reader. -/
def times (r : ByteReader ε α) : Nat → ByteReader ε (List α)
  | 0 => pure []
  | n + 1 => do
    let a ← r
    let as ← r.times n
    return a :: as

/-! ## Ending -/

variable (r : ByteReader ε α) (m : Memory)

/-- The reader ends within its fuel: with a result, with an exception or
with undefined behaviour. -/
def Ends (p : Nat) : Prop := r m p ≠ .error .outOfFuel

section Ends

variable {r : ByteReader ε α} {f : α → ByteReader ε β} {m : Memory} {p : Nat}

theorem Ends.bind (h : Ends r m p) (hf : ∀ a q, r m p = .ok (a, q) → Ends (f a) m q) :
    Ends (r >>= f) m p := by
  unfold Ends at h hf ⊢
  rw [bind_apply]
  cases hr : r m p with
  | error e =>
    rw [hr] at h
    exact fun he => h (congrArg error (error.inj he))
  | ok s => exact hf s.1 s.2 hr

theorem ends_bind_ok {a : α} {q : Nat} (h : r m p = .ok (a, q)) (hf : Ends (f a) m q) :
    Ends (r >>= f) m p := by
  unfold Ends
  rwa [bind_of_ok h]

theorem Ends.map (h : Ends r m p) (g : α → β) : Ends (g <$> r) m p := by
  rw [map_eq_pure_bind]
  exact h.bind fun _ _ _ => nofun

theorem ends_pure (a : α) : Ends (pure a : ByteReader ε α) m p := nofun

theorem ends_fail {e : Halt ε} (he : e ≠ .outOfFuel) : Ends (fail e : ByteReader ε α) m p :=
  fun h => he (error.inj h)

theorem ends_ite {c : Prop} [Decidable c] {r' : ByteReader ε α} (h : c → Ends r m p)
    (h' : ¬ c → Ends r' m p) : Ends (if c then r else r') m p := by
  split_ifs with hc
  · exact h hc
  · exact h' hc

theorem ends_take (n : Nat) : Ends (take n : ByteReader ε Bytes) m p := by
  unfold Ends take
  cases m.bytesAt p n with
  | none => exact nofun
  | some bs => exact nofun

theorem ends_times (h : ∀ q, Ends r m q) : ∀ (n : Nat) {p : Nat}, Ends (r.times n) m p
  | 0, _ => ends_pure []
  | n + 1, p => (h p).bind fun _ _ _ => (ends_times h n).bind fun _ _ _ => ends_pure _

end Ends

/-! ## Going forward -/

/-- The reader never goes back. -/
def Forward : Prop := ∀ p a q, r m p = .ok (a, q) → p ≤ q

/-- From `p` the reader does not go back, and it runs out of fuel only if
`F` holds. -/
structure Moves (r : ByteReader ε α) (m : Memory) (p : Nat) (F : Prop) : Prop where
  forward : ∀ {a q}, r m p = .ok (a, q) → p ≤ q
  fuel : r m p = .error .outOfFuel → F

section Moves

variable {r r' : ByteReader ε α} {f : α → ByteReader ε β} {m : Memory} {p : Nat} {F : Prop}

variable (h : Moves r m p F)
include h

theorem Moves.ends (hF : ¬ F) : Ends r m p := fun he => hF (h.fuel he)

theorem Moves.bind_ok
    (hf : ∀ a q, r m p = .ok (a, q) → p ≤ q → Moves (f a) m q F) : Moves (r >>= f) m p F := by
  constructor
  · intro b q hb
    obtain ⟨a, p', ha, hb⟩ := bind_ok_iff.mp hb
    have hp' := h.forward ha
    exact hp'.trans ((hf a p' ha hp').forward hb)
  · intro he
    rw [bind_apply] at he
    cases hr : r m p with
    | error e =>
      rw [hr] at he
      exact h.fuel (hr.trans (congrArg error (error.inj he)))
    | ok s =>
      rw [hr] at he
      exact (hf s.1 s.2 hr (h.forward hr)).fuel he

theorem Moves.bind (hf : ∀ a q, p ≤ q → Moves (f a) m q F) :
    Moves (r >>= f) m p F := h.bind_ok fun a q _ => hf a q

omit h in
theorem moves_pure (a : α) : Moves (pure a : ByteReader ε α) m p F :=
  ⟨fun h => (pure_eq_ok.mp h).2.le, nofun⟩

theorem Moves.map (g : α → β) : Moves (g <$> r) m p F := by
  rw [map_eq_pure_bind]
  exact h.bind fun _ _ _ => moves_pure _

omit h in
theorem moves_fail {e : Halt ε} (he : e = .outOfFuel → F) : Moves (fail e : ByteReader ε α) m p F :=
  ⟨nofun, fun h => he (error.inj h)⟩

theorem moves_ite {c : Prop} [Decidable c] (h' : Moves r' m p F) :
    Moves (if c then r else r') m p F := by
  split_ifs
  · exact h
  · exact h'

omit h

theorem moves_position_bind {f : Nat → ByteReader ε β} (h : Moves (f p) m p F) :
    Moves (position >>= f) m p F := ⟨h.forward, h.fuel⟩

theorem moves_size_bind {f : Nat → ByteReader ε β} (h : Moves (f m.size) m p F) :
    Moves (size >>= f) m p F := ⟨h.forward, h.fuel⟩

end Moves

/-! ## Staying inside -/

/-- The reader does not look at memory that it may not. -/
def Inside (p : Nat) : Prop := r m p ≠ .error .outOfBounds

/-- What holds of the result, if there is one. -/
def After (p : Nat) (G : α → Nat → Prop) : Prop :=
  ∀ a q, r m p = .ok (a, q) → G a q

section Inside

variable {r r' : ByteReader ε α} {f : α → ByteReader ε β} {m : Memory} {p : Nat}

theorem inside_bind_iff {F : Prop} {G : α → Nat → Prop} (h : Inside r m p ↔ F)
    (hf : ∀ a q, Inside (f a) m q ↔ G a q) : Inside (r >>= f) m p ↔ F ∧ After r m p G := by
  rw [← h]
  unfold Inside After at *
  rw [bind_apply]
  cases hr : r m p with
  | error e =>
    constructor
    · intro he
      exact ⟨fun hinside => he (congrArg error (error.inj hinside)), nofun⟩
    · rintro ⟨he, -⟩ hinside
      exact he (congrArg error (error.inj hinside))
  | ok s =>
    constructor
    · intro hinside
      refine ⟨nofun, fun a q ha => (hf a q).mp ?_⟩
      cases ha
      exact hinside
    · rintro ⟨-, hG⟩
      exact (hf s.1 s.2).mpr (hG s.1 s.2 rfl)

/-- Only the first part looks at memory. -/
theorem inside_bind_left (hf : ∀ a q, Inside (f a) m q) : Inside (r >>= f) m p ↔ Inside r m p := by
  rw [inside_bind_iff Iff.rfl fun a q => iff_true_intro (hf a q)]
  exact and_iff_left fun _ _ _ => trivial

theorem inside_map_iff (g : α → β) : Inside (g <$> r) m p ↔ Inside r m p := by
  rw [map_eq_pure_bind]
  exact inside_bind_left fun _ _ => nofun

theorem inside_size_bind {f : Nat → ByteReader ε β} :
    Inside (size >>= f) m p ↔ Inside (f m.size) m p := Iff.rfl

theorem inside_position_bind {f : Nat → ByteReader ε β} :
    Inside (position >>= f) m p ↔ Inside (f p) m p := Iff.rfl

theorem inside_setPosition_bind {q : Nat} {f : Unit → ByteReader ε β} :
    Inside (setPosition q >>= f) m p ↔ Inside (f ()) m q := Iff.rfl

theorem inside_pure (a : α) : Inside (pure a : ByteReader ε α) m p := nofun

theorem inside_fail {e : Halt ε} (he : e ≠ .outOfBounds) : Inside (fail e : ByteReader ε α) m p :=
  fun h => he (error.inj h)

theorem inside_ite_iff {c : Prop} [Decidable c] : Inside (if c then r else r') m p ↔
    (c → Inside r m p) ∧ (¬ c → Inside r' m p) := by
  split_ifs with hc
  · exact ⟨fun h => ⟨fun _ => h, fun h' => absurd hc h'⟩, fun h => h.1 hc⟩
  · exact ⟨fun h => ⟨fun h' => absurd h' hc, fun _ => h⟩, fun h => h.2 hc⟩

/-- A branch that throws looks at nothing. -/
theorem inside_unless_iff {c : Prop} [Decidable (¬ c)] {F : Prop} (hr : Inside r m p)
    (hr' : Inside r' m p ↔ F) : Inside (if ¬ c then r else r') m p ↔ (c → F) := by
  by_cases hc : c
  · rw [if_neg (not_not.mpr hc)]
    exact hr'.trans ⟨fun h _ => h, fun h => h hc⟩
  · rw [if_pos hc]
    exact iff_of_true hr fun h => absurd h hc

/-- Bytes can be read if they are the buffer's, where nothing else may be
looked at. -/
theorem inside_take_iff (hm : ∀ i, m.beyond i = none) (n : Nat) :
    Inside (take n : ByteReader ε Bytes) m p ↔ m.Fits p n := by
  rw [Memory.fits_iff hm]
  unfold Inside take
  cases m.bytesAt p n with
  | none => exact iff_of_false (fun h => h rfl) nofun
  | some bs => exact iff_of_true nofun rfl

end Inside

/-! ## Loops -/

section Loop

variable {σ ρ : Type} {step : σ → ByteReader ε (σ ⊕ ρ)} {m : Memory}

/-- A loop of at most so many rounds, each of which gives the next state or
the result. -/
def iterate (step : σ → ByteReader ε (σ ⊕ ρ)) : Nat → σ → ByteReader ε ρ
  | 0, _ => fail .outOfFuel
  | fuel + 1, s => do
    match ← step s with
    | .inl s' => iterate step fuel s'
    | .inr r => pure r

/-- What one round leads to. -/
def Next (step : σ → ByteReader ε (σ ⊕ ρ)) (m : Memory) (s : σ × Nat) (s' : σ × Nat) : Prop :=
  step s.1 m s.2 = .ok (.inl s'.1, s'.2)

variable {s : σ} {p fuel : Nat}

theorem iterate_next {s' : σ} {p' : Nat} (h : Next step m (s, p) (s', p')) (fuel : Nat) :
    iterate step (fuel + 1) s m p = iterate step fuel s' m p' := by
  rw [iterate, bind_of_ok h]

theorem inside_iterate_succ_iff : Inside (iterate step (fuel + 1) s) m p ↔ Inside (step s) m p ∧
      ∀ s' p', Next step m (s, p) (s', p') → Inside (iterate step fuel s') m p' := by
  rw [iterate, inside_bind_iff Iff.rfl fun _ _ => Iff.rfl]
  refine and_congr_right fun _ => ⟨fun h s' p' hnext => h (.inl s') p' hnext, fun h o q hstep => ?_⟩
  cases o with
  | inl s' => exact h s' q hstep
  | inr r => exact inside_pure r

/-- The first round of a loop that has a result. -/
theorem iterate_eq_ok {r : ρ} {q : Nat} (h : iterate step fuel s m p = .ok (r, q)) :
    ∃ fuel', fuel = fuel' + 1 ∧ (step s m p = .ok (.inr r, q) ∨
      ∃ s' p', Next step m (s, p) (s', p') ∧ iterate step fuel' s' m p' = .ok (r, q)) := by
  cases fuel with
  | zero => cases h
  | succ fuel =>
    refine ⟨fuel, rfl, ?_⟩
    rw [iterate] at h
    obtain ⟨next, p', hstep, hrest⟩ := bind_ok_iff.mp h
    cases next with
    | inl s' => exact Or.inr ⟨s', p', hstep, hrest⟩
    | inr r' =>
      obtain ⟨rfl, rfl⟩ := pure_eq_ok.mp hrest
      exact Or.inl hstep

/-- What every round keeps, the loop keeps. -/
theorem iterate_invariant {I : σ → Prop} {J : ρ → Prop}
    (hnext : ∀ s p s' p', I s → Next step m (s, p) (s', p') → I s')
    (hstop : ∀ s p r q, I s → step s m p = .ok (.inr r, q) → J r) :
    ∀ (fuel : Nat) {s : σ} {p q : Nat} {r : ρ}, I s → iterate step fuel s m p = .ok (r, q) → J r
  | 0, _, _, _, _, _, h => by cases h
  | fuel + 1, s, p, q, r, hs, h => by
    obtain ⟨fuel', hfuel, hrnd⟩ := iterate_eq_ok h
    obtain rfl : fuel = fuel' := succ.inj hfuel
    rcases hrnd with hlast | ⟨s', p', hstep, hrest⟩
    · exact hstop s p r q hs hlast
    · exact iterate_invariant hnext hstop fuel (hnext s p s' p' hs hstep) hrest

/-- A set of states that every round leads back into is never left. -/
theorem iterate_eq_outOfFuel {S : σ × Nat → Prop} (h : ∀ x, S x → ∃ y, Next step m x y ∧ S y) :
    ∀ (fuel : Nat) {x : σ × Nat}, S x → iterate step fuel x.1 m x.2 = .error .outOfFuel
  | 0, _, _ => rfl
  | fuel + 1, x, hx => by
    obtain ⟨y, hnext, hy⟩ := h x hx
    rw [iterate_next hnext, iterate_eq_outOfFuel h fuel hy]

/-- What happens behind the rounds that lead somewhere is what happens. -/
theorem iterate_eq_outOfFuel_of_reach {x y : σ × Nat} (h : ReflTransGen (Next step m) x y)
    (hy : ∀ fuel, iterate step fuel y.1 m y.2 = .error .outOfFuel) (fuel : Nat) :
    iterate step fuel x.1 m x.2 = .error .outOfFuel := by
  induction h using ReflTransGen.head_induction_on generalizing fuel with
  | refl => exact hy fuel
  | head hnext _ ih =>
    cases fuel with
    | zero => rfl
    | succ fuel => rw [iterate_next hnext, ih]

/-- A loop that is never twice at the same position ends, if its rounds do:
`visited` are the positions it has been at. -/
theorem ends_iterate_of_visited {bound : Nat} : ∀ {fuel : Nat} {x : σ × Nat}
    (visited : Finset Nat), visited ⊆ Finset.range bound →
    (∀ y, ReflTransGen (Next step m) x y → y.2 ∉ visited) →
    (∀ y, ReflTransGen (Next step m) x y → Ends (step y.1) m y.2) →
    (∀ y z, ReflTransGen (Next step m) x y → Next step m y z → y.2 < bound) →
    (∀ y z, ReflTransGen (Next step m) x y → Relation.TransGen (Next step m) y z → y.2 ≠ z.2) →
    bound < fuel + visited.card → Ends (iterate step fuel x.1) m x.2
  | 0, x, visited, hsub, _, _, _, _, hfuel => by
    have hcard := Finset.card_le_card hsub
    rw [Finset.card_range] at hcard
    omega
  | fuel + 1, x, visited, hsub, hfresh, hrnd, hbound, hreturn, hfuel => by
    refine (hrnd x .refl).bind fun next p' hstep => ?_
    cases next with
    | inr r => exact ends_pure r
    | inl s' =>
      have hnext : Next step m x (s', p') := hstep
      have hfirst := hfresh x .refl
      have hlt := hbound x _ .refl hnext
      refine ends_iterate_of_visited (x := (s', p')) (insert x.2 visited)
        (Finset.insert_subset (Finset.mem_range.mpr hlt) hsub) ?_ ?_ ?_ ?_ ?_
      · intro y hy hmem
        rcases Finset.mem_insert.mp hmem with heq | hmem
        · exact hreturn x y .refl (.head' hnext hy) heq.symm
        · exact hfresh y (.head hnext hy) hmem
      · exact fun y hy => hrnd y (.head hnext hy)
      · exact fun y z hy => hbound y z (.head hnext hy)
      · exact fun y z hy => hreturn y z (.head hnext hy)
      · rw [Finset.card_insert_of_notMem hfirst]
        omega

theorem ends_iterate {bound : Nat} {x : σ × Nat}
    (hrnd : ∀ y, ReflTransGen (Next step m) x y → Ends (step y.1) m y.2)
    (hbound : ∀ y z, ReflTransGen (Next step m) x y → Next step m y z → y.2 < bound)
    (hreturn : ∀ y z, ReflTransGen (Next step m) x y →
      Relation.TransGen (Next step m) y z → y.2 ≠ z.2)
    (hfuel : bound < fuel) : Ends (iterate step fuel x.1) m x.2 :=
  ends_iterate_of_visited ∅ (Finset.empty_subset _) (fun _ _ => Finset.notMem_empty _) hrnd
    hbound hreturn (by rwa [Finset.card_empty])

end Loop

/-! ## Reading exactly some bytes -/

/-- Wherever `xs` stands, the reader consumes it and returns `a`. -/
def Reads (xs : Bytes) (a : α) : Prop :=
  ∀ m p, m.At p xs → r m p = .ok (a, p + xs.length)

variable {r : ByteReader ε α} {f : α → ByteReader ε β} {xs ys : Bytes} {a : α} {b : β}

theorem Reads.pure (a : α) : Reads (Pure.pure a : ByteReader ε α) [] a :=
  fun _ _ _ => rfl

theorem Reads.bind (hr : Reads r xs a) (hf : Reads (f a) ys b) : Reads (r >>= f) (xs ++ ys) b := by
  intro m p h
  rw [bind_of_ok (hr m p h.left), hf m _ h.right, length_append, add_assoc]

theorem Reads.map (hr : Reads r xs a) (g : α → β) : Reads (g <$> r) xs (g a) :=
  fun m p h => map_of_ok (hr m p h) g

theorem Reads.take (xs : Bytes) : Reads (ε := ε) (take xs.length) xs xs := by
  intro m p h
  rw [ByteReader.take, h.bytesAt]

/-- Encodings one behind the other are read by repetition. -/
theorem Reads.times {enc : α → Bytes} : ∀ {as : List α}, (∀ a ∈ as, Reads r (enc a) a) →
    Reads (r.times as.length) (as.flatMap enc) as
  | [], _ => Reads.pure []
  | a :: as, h => by
    rw [flatMap_cons, ← append_nil (flatMap enc as)]
    have hrest := Reads.times fun b hb => h b (mem_cons_of_mem a hb)
    exact (h a (mem_cons_self ..)).bind (hrest.bind (Reads.pure _))

end ByteReader

/-! ## Little-endian numbers -/

/-- The `k` low bytes of a number, the lowest first. -/
def leBytes : Nat → Nat → Bytes
  | 0, _ => []
  | k + 1, n => UInt8.ofNat (n % 256) :: leBytes k (n / 256)

def ofLeBytes : Bytes → Nat
  | [] => 0
  | b :: bs => b.toNat + 256 * ofLeBytes bs

@[simp] theorem length_leBytes : ∀ k n, (leBytes k n).length = k
  | 0, _ => rfl
  | k + 1, n => by rw [leBytes, length_cons, length_leBytes k]

theorem ofLeBytes_leBytes : ∀ k n, ofLeBytes (leBytes k n) = n % 256 ^ k
  | 0, n => by rw [leBytes, ofLeBytes, pow_zero, mod_one]
  | k + 1, n => by
    rw [leBytes, ofLeBytes, ofLeBytes_leBytes k]
    have hbyte : (UInt8.ofNat (n % 256)).toNat = n % 256 := by
      rw [UInt8.toNat_ofNat']
      exact mod_mod _ _
    rw [hbyte, pow_succ', mod_mul]

/-- A number in `k` bytes of two's complement. -/
def putInt (k : Nat) (i : Int) : Bytes := leBytes k (i % 256 ^ k).toNat

def getInt {ε : Type} (k : Nat) : ByteReader ε Int :=
  (fun bs => (ofLeBytes bs : Int).bmod (256 ^ k)) <$> ByteReader.take k

@[simp] theorem length_putInt (k : Nat) (i : Int) : (putInt k i).length = k :=
  length_leBytes k _

theorem reads_getInt {ε : Type} (k : Nat) (i : Int) :
    ByteReader.Reads (getInt (ε := ε) k) (putInt k i) (i.bmod (256 ^ k)) := by
  have hread := (ByteReader.Reads.take (ε := ε) (putInt k i)).map
    fun bs => (ofLeBytes bs : Int).bmod (256 ^ k)
  have hval : (ofLeBytes (putInt k i) : Int).bmod (256 ^ k) = i.bmod (256 ^ k) := by
    have hpos : (0 : Int) ≤ i % 256 ^ k := Int.emod_nonneg _ (by positivity)
    rw [putInt, ofLeBytes_leBytes, Int.natCast_mod, Int.toNat_of_nonneg hpos]
    push_cast
    rw [Int.emod_emod_of_dvd _ dvd_rfl]
    exact_mod_cast Int.emod_bmod (n := 256 ^ k) i
  rw [hval, length_putInt] at hread
  exact hread

end OpenCmw
