import OpenCmw.ClaimStrategy

/-!
# The ring of events and its poller

`RingBuffer` is the array of reused entries with a claim strategy over it, and
`EventPoller.poll` hands the events that are published to a handler.

The second half says what the multi-threaded strategy's marks mean. A slot
holds the lap of the sequence number last published in it, so for the
sequence numbers that can be in the ring together with what its consumer has
handled, from `p + 1` to `p + SIZE`, a mark is there exactly if the number was
published (`Marks`). That rests on what the index and the lap of a sequence
number are (`Addressing`), which are computed in 32 bits.
-/

namespace OpenCmw.Disruptor

open BitVec (ofInt toNat_ofNat)
open Nat Int
open Option (bind_eq_some_iff isSome_iff_exists bind_eq_bind bind_some)

/-! ## The ring -/

/-- `128 / sizeof(int *)`. -/
def rbPad : Nat := 16

structure RingBuffer (T σ : Type) (c : Size) where
  /-- With padding in front and back. -/
  entries : Vector T (c.size + 2 * rbPad)
  strategy : σ

/-- Where `operator[]` looks: the padding is added in `std::int32_t`, so a sum
beyond its range is undefined, and a negative one lies outside the array. -/
def entryIndex (c : Size) (sequence : Int) : Option Nat :=
  let index := rbPad + (ofInt 32 sequence &&& c.indexMask).toInt
  if 0 ≤ index ∧ index < 2 ^ 31 then some index.toNat else none

namespace RingBuffer

variable {T σ : Type} {c : Size}

/-- `operator[]`. -/
def at? (ring : RingBuffer T σ c) (sequence : Int) : Option T :=
  (entryIndex c sequence).bind fun i => ring.entries[i]?

end RingBuffer

/-! ## The poller -/

/-- What the handler did: it returned whether to go on, or threw. -/
inductive HandlerResult where
  | returned (processNextEvent : Bool)
  | threw
  deriving DecidableEq

abbrev Handler (T : Type) := T → Int → Bool → HandlerResult

/-- A call of the handler. -/
structure Offer (T : Type) where
  event : T
  sequence : Int
  endOfBatch : Bool
  result : HandlerResult

/-- What the loop in `poll` did. -/
structure Delivery (T : Type) where
  offers : List (Offer T)
  processedSequence : Int
  threw : Bool

inductive PollState where
  | processing
  | gating
  | idle
  deriving DecidableEq

inductive HandlerException where
  | rethrown
  deriving DecidableEq

structure EventPoller where
  sequence : Int := initialCursorValue
  lastAvailableSequence : Int := initialCursorValue

/-- `std::numeric_limits<std::int64_t>::max()`. -/
def int64Max : Int := 2 ^ 63 - 1

section Poll

variable {T σ : Type} {c : Size}

/-- The loop in `poll` with at most `rounds` events to go. -/
def RingBuffer.deliver (ring : RingBuffer T σ c) (handler : Handler T) (availableSequence : Int) :
    (rounds : Nat) → (processedSequence nextSequence : Int) → Option (Delivery T)
  | 0, processedSequence, _ => some ⟨[], processedSequence, false⟩
  | rounds + 1, processedSequence, nextSequence => do
    let event ← ring.at? nextSequence
    let result := handler event nextSequence (nextSequence == availableSequence)
    let offer : Offer T := ⟨event, nextSequence, nextSequence == availableSequence, result⟩
    match result with
    | .threw => return ⟨[offer], processedSequence, true⟩
    | .returned processNextEvent =>
      let following ← int64 (nextSequence + 1)
      if processNextEvent then
        let d ← ring.deliver handler availableSequence rounds nextSequence following
        return { d with offers := offer :: d.offers }
      else
        return ⟨[offer], nextSequence, false⟩

/-- `poll` once it knows how far it may read. -/
def EventPoller.process (ring : RingBuffer T σ c) (cursor currentSequence availableSequence : Int)
    (handler : Handler T) :
    Option (EventPoller × List (Offer T) × Except HandlerException PollState) := do
  let nextSequence := currentSequence + 1
  if nextSequence ≤ availableSequence then
    let d ← ring.deliver handler availableSequence (availableSequence - currentSequence).toNat
      currentSequence nextSequence
    return (⟨d.processedSequence, availableSequence⟩, d.offers,
      if d.threw then .error .rethrown else .ok .processing)
  else if cursor ≥ nextSequence then
    return (⟨currentSequence, availableSequence⟩, [], .ok .gating)
  else
    return (⟨currentSequence, availableSequence⟩, [], .ok .idle)

/-- `poll` of a poller that `newPoller()` made: it waits for the cursor only. -/
def EventPoller.poll (S : ClaimStrategy σ) (ring : RingBuffer T σ c) (p : EventPoller)
    (handler : Handler T) :
    Option (EventPoller × List (Offer T) × Except HandlerException PollState) := do
  let nextSequence ← int64 (p.sequence + 1)
  let lastAvailableSequence := p.lastAvailableSequence
  let shareSameSign := decide (nextSequence < 0) == decide (lastAvailableSequence < 0)
  let min := if shareSameSign ∧ lastAvailableSequence > nextSequence then lastAvailableSequence
    else nextSequence
  let cursor := S.cursor ring.strategy
  let availableSequence ←
    S.getHighestPublishedSequence ring.strategy min (getMinimumSequence [cursor] int64Max)
  process ring cursor p.sequence availableSequence handler

end Poll

/-! ## Consecutive sequence numbers -/

def sequences (first : Int) : Nat → List Int
  | 0 => []
  | n + 1 => first :: sequences (first + 1) n

theorem mem_sequences {x : Int} : ∀ {n : Nat} {first : Int},
    x ∈ sequences first n ↔ first ≤ x ∧ x < first + n
  | 0, first => by
    simp only [sequences, List.not_mem_nil, false_iff]
    omega
  | n + 1, first => by
    rw [sequences, List.mem_cons, mem_sequences]
    omega

theorem sequences_append {m : Nat} : ∀ {n : Nat} {first : Int},
    sequences first n ++ sequences (first + n) m = sequences first (n + m)
  | 0, first => by simp [sequences]
  | n + 1, first => by
    have hfirst : first + (n + 1 : Nat) = first + 1 + n := by omega
    rw [hfirst, sequences, List.cons_append, sequences_append, add_right_comm, sequences]

/-! ## What the loop delivers -/

section Deliver

variable {T σ : Type} {c : Size} {ring : RingBuffer T σ c} {handler : Handler T}

/-- One event after the other: those the handler returned from, and after them
the one it threw at, if it threw. -/
structure Delivered (current available : Int) (d : Delivery T) : Prop where
  processed_le : d.processedSequence ≤ available
  parts : ∃ done : List (Offer T), (∀ o ∈ done, o.result ≠ .threw) ∧
    done.map Offer.sequence = sequences (current + 1) done.length ∧
    d.processedSequence = current + done.length ∧
    (d.offers = done ∧ d.threw = false ∨
      d.processedSequence < available ∧ d.threw = true ∧ ∃ o : Offer T, d.offers = done ++ [o] ∧
        o.result = .threw ∧ o.sequence = d.processedSequence + 1)

variable {current available : Int}

theorem Delivered.cons {d : Delivery T} {o : Offer T}
    (hd : Delivered (current + 1) available d) (ho : o.sequence = current + 1)
    (hret : o.result ≠ .threw) :
    Delivered current available { d with offers := o :: d.offers } := by
  obtain ⟨hle, done, hdone, hseqs, hproc, hparts⟩ := hd
  refine ⟨hle, o :: done, ?_, ?_, ?_, ?_⟩
  · exact List.forall_mem_cons.mpr ⟨hret, hdone⟩
  · rw [List.map_cons, hseqs, List.length_cons, sequences, ho]
  · rw [List.length_cons]
    dsimp only
    omega
  · rcases hparts with ⟨hoffers, hthrew⟩ | ⟨hlt, hthrew, o', hoffers, ho'⟩
    · exact Or.inl ⟨by dsimp only; rw [hoffers], hthrew⟩
    · exact Or.inr ⟨hlt, hthrew, o', by dsimp only; rw [hoffers, List.cons_append], ho'⟩

theorem deliver_spec {available : Int} : ∀ {rounds : Nat} {current : Int} {d : Delivery T},
    current + rounds = available →
    ring.deliver handler available rounds current (current + 1) = some d →
    Delivered current available d
  | 0, current, d, hrnds, h => by
    cases h
    exact ⟨by dsimp only; omega, [], by simp, rfl, by simp, Or.inl ⟨rfl, rfl⟩⟩
  | rounds + 1, current, d, hrnds, h => by
    obtain ⟨_, -, h⟩ := bind_eq_some_iff.mp h
    dsimp only at h
    split at h
    next hthrew =>
      cases h
      exact ⟨by dsimp only; omega, [], by simp, rfl, by simp, Or.inr ⟨by dsimp only; omega, rfl,
        _, rfl, hthrew, rfl⟩⟩
    next processNextEvent hret =>
      obtain ⟨_, hfollowing, h⟩ := bind_eq_some_iff.mp h
      obtain rfl := int64_eq_some hfollowing
      split_ifs at h with hgo
      · obtain ⟨_, hd', h⟩ := bind_eq_some_iff.mp h
        cases h
        have hrest := deliver_spec (by push_cast at hrnds; omega) hd'
        exact hrest.cons rfl (by simp [hret])
      · cases h
        refine ⟨by dsimp only; omega, [_], ?_, rfl, by simp, Or.inl ⟨rfl, rfl⟩⟩
        simp [hret]

/-- The loop is defined as far as the entries it may reach are. -/
theorem deliver_isSome {available : Int} : ∀ {rounds : Nat} {processed next : Int},
    (∀ x, next ≤ x → x < next + rounds → (ring.at? x).isSome ∧ (int64 (x + 1)).isSome) →
    (ring.deliver handler available rounds processed next).isSome
  | 0, _, _, _ => rfl
  | rounds + 1, processed, next, hdef => by
    obtain ⟨hent, hint⟩ := hdef next le_rfl (by omega)
    obtain ⟨_, hent⟩ := isSome_iff_exists.mp hent
    obtain ⟨_, hint⟩ := isSome_iff_exists.mp hint
    unfold RingBuffer.deliver
    rw [hent, bind_eq_bind, bind_some]
    dsimp only
    split
    · rfl
    · rw [hint, bind_eq_bind, bind_some]
      obtain rfl := int64_eq_some hint
      split_ifs with hgo
      · have hrest : (ring.deliver handler available rounds next (next + 1)).isSome :=
          deliver_isSome fun x hx hlt => hdef x (by omega) (by push_cast; omega)
        obtain ⟨d, hd⟩ := isSome_iff_exists.mp hrest
        rw [hd]
        rfl
      · rfl

/-- What a poll of the events up to `available` leaves and has offered. -/
structure Polled (current available : Int) (p : EventPoller) (offers : List (Offer T)) : Prop where
  last : p.lastAvailableSequence = available
  delivery : ∃ d : Delivery T, Delivered current available d ∧ p.sequence = d.processedSequence ∧
    offers = d.offers
  progress : current < available → offers ≠ []

variable {offers : List (Offer T)} {p : EventPoller}

variable (h : Polled current available p offers)
include h

theorem Polled.sequence_range : ∀ o ∈ offers, current < o.sequence ∧ o.sequence ≤ available := by
  intro o ho
  obtain ⟨-, ⟨d, ⟨hle, done, -, hseqs, hproc, hparts⟩, -, rfl⟩, -⟩ := h
  have hrange : ∀ o ∈ done, current < o.sequence ∧ o.sequence ≤ available := by
    intro o ho
    have hmem : o.sequence ∈ done.map Offer.sequence := List.mem_map_of_mem ho
    rw [hseqs, mem_sequences] at hmem
    omega
  rcases hparts with ⟨hoffers, -⟩ | ⟨hlt, -, _, hoffers, -, ho'⟩
  · exact hrange o (hoffers ▸ ho)
  · rw [hoffers, List.mem_append, List.mem_singleton] at ho
    rcases ho with ho | rfl
    · exact hrange o ho
    · omega

/-- An event the handler threw at is the next one again. -/
theorem Polled.threw : ∀ o ∈ offers, o.result = .threw → o.sequence = p.sequence + 1 := by
  intro o ho hthrew
  obtain ⟨-, ⟨d, ⟨-, _, hdone, -, -, hparts⟩, hseq, rfl⟩, -⟩ := h
  rcases hparts with ⟨hoffers, -⟩ | ⟨-, -, _, hoffers, -, ho'⟩
  · exact absurd hthrew (hdone o (hoffers ▸ ho))
  · rw [hoffers, List.mem_append, List.mem_singleton] at ho
    rcases ho with ho | rfl
    · exact absurd hthrew (hdone o ho)
    · rw [ho', hseq]

theorem Polled.head (hlt : current < available) :
    ∃ o rest, offers = o :: rest ∧ o.sequence = current + 1 := by
  have hne := h.progress hlt
  obtain ⟨-, ⟨d, ⟨-, done, -, hseqs, hproc, hparts⟩, -, rfl⟩, -⟩ := h
  cases done with
  | cons o done =>
    have ho : o.sequence = current + 1 := (List.cons.inj hseqs).1
    rcases hparts with ⟨hoffers, -⟩ | ⟨-, -, o', hoffers, -⟩
    · exact ⟨o, done, hoffers, ho⟩
    · exact ⟨o, done ++ [o'], hoffers, ho⟩
  | nil =>
    rcases hparts with ⟨hoffers, -⟩ | ⟨-, -, o, hoffers, -, ho⟩
    · exact absurd hoffers hne
    · refine ⟨o, [], hoffers, ?_⟩
      rw [ho, hproc]
      simp

omit h

theorem deliver_ne_nil {available current : Int} {rounds : Nat} {next : Int} {d : Delivery T}
    (h : ring.deliver handler available (rounds + 1) current next = some d) : d.offers ≠ [] := by
  obtain ⟨_, -, h⟩ := bind_eq_some_iff.mp h
  dsimp only at h
  split at h
  next =>
    cases h
    exact List.cons_ne_nil _ _
  next =>
    obtain ⟨_, -, h⟩ := bind_eq_some_iff.mp h
    split_ifs at h
    · obtain ⟨_, -, h⟩ := bind_eq_some_iff.mp h
      cases h
      exact List.cons_ne_nil _ _
    · cases h
      exact List.cons_ne_nil _ _

theorem process_spec {cursor current available : Int} (hle : current ≤ available) {result : Except HandlerException PollState}
    (h : EventPoller.process ring cursor current available handler = some (p, offers, result)) :
    Polled current available p offers := by
  unfold EventPoller.process at h
  dsimp only at h
  split_ifs at h with hnext hcur
  · obtain ⟨d, hd, h⟩ := bind_eq_some_iff.mp h
    obtain ⟨rfl, heq⟩ := Prod.mk.inj (Option.some.inj h)
    cases heq
    refine ⟨rfl, ⟨d, deliver_spec (by omega) hd, rfl, rfl⟩, fun _ => ?_⟩
    obtain ⟨rounds, hrnds⟩ : ∃ rounds, (available - current).toNat = rounds + 1 :=
      ⟨(available - current).toNat - 1, by omega⟩
    rw [hrnds] at hd
    exact deliver_ne_nil hd
  all_goals
    obtain ⟨rfl, heq⟩ := Prod.mk.inj (Option.some.inj h)
    cases heq
    have hnothing : Delivered current available (⟨[], current, false⟩ : Delivery T) :=
      ⟨hle, [], by simp, rfl, by simp, Or.inl ⟨rfl, rfl⟩⟩
    exact ⟨rfl, ⟨_, hnothing, rfl, rfl⟩, fun hlt => absurd hlt (by omega)⟩

theorem process_isSome {cursor current available : Int}
    (hdef : ∀ x, current < x → x ≤ available → (ring.at? x).isSome ∧ (int64 (x + 1)).isSome) :
    (EventPoller.process ring cursor current available handler).isSome := by
  unfold EventPoller.process
  dsimp only
  split_ifs with hnext
  · have hd : (ring.deliver handler available (available - current).toNat current
        (current + 1)).isSome :=
      deliver_isSome fun x hx hlt => hdef x (by omega) (by omega)
    obtain ⟨d, hd⟩ := isSome_iff_exists.mp hd
    rw [hd]
    rfl
  all_goals rfl

theorem int64_of_lt {x : Int} (h0 : -1 ≤ x) (hx : x < 2 ^ 63) : int64 x = some x :=
  if_pos ⟨by omega, hx⟩

/-- `poll` scans from what it knows to be available, or from the next event. -/
theorem poll_eq {S : ClaimStrategy σ} {v : Int} (hp : -1 ≤ p.sequence)
    (hlast : -1 ≤ p.lastAvailableSequence) (hle : p.sequence ≤ S.cursor ring.strategy)
    (hmax : S.cursor ring.strategy < 2 ^ 63 - 1)
    (hv : S.getHighestPublishedSequence ring.strategy (max p.lastAvailableSequence (p.sequence + 1))
      (S.cursor ring.strategy) = some v) : EventPoller.poll S ring p handler =
      EventPoller.process ring (S.cursor ring.strategy) p.sequence v handler := by
  have hmin : (if (decide (p.sequence + 1 < 0) == decide (p.lastAvailableSequence < 0)) = true ∧
        p.lastAvailableSequence > p.sequence + 1 then p.lastAvailableSequence else p.sequence + 1) =
      max p.lastAvailableSequence (p.sequence + 1) := by
    by_cases hahead : p.lastAvailableSequence > p.sequence + 1
    · have hsign : (decide (p.sequence + 1 < 0) == decide (p.lastAvailableSequence < 0)) = true := by
        rw [decide_eq_false (by omega), decide_eq_false (by omega)]
        rfl
      rw [if_pos ⟨hsign, hahead⟩, max_eq_left (by omega)]
    · rw [if_neg fun h => hahead h.2, max_eq_right (by omega)]
  have hcur : getMinimumSequence [S.cursor ring.strategy] int64Max = S.cursor ring.strategy := by
    change min int64Max (S.cursor ring.strategy) = _
    exact min_eq_right (by unfold int64Max; omega)
  unfold EventPoller.poll
  rw [int64_of_lt (by omega) (by omega), bind_eq_bind, bind_some]
  dsimp only
  rw [hmin, hcur, hv, bind_some]

end Deliver

/-! ## Indices and laps -/

section Addressing

open MultiThreadedStrategy

variable {c : Size}

theorem Size.size_pos (c : Size) : 0 < c.size := Nat.two_pow_pos _

theorem toNat_indexMask (c : Size) : c.indexMask.toNat = 2 ^ min c.indexShift 32 - 1 := by
  rw [Size.indexMask, toNat_ofNat, Size.size]
  by_cases h : c.indexShift ≤ 32
  · have hle : 2 ^ c.indexShift ≤ 2 ^ 32 := Nat.pow_le_pow_right (by decide) h
    rw [min_eq_left h, mod_eq_of_lt (by omega)]
  · -- the conversion keeps the low bits, which are all set
    obtain ⟨d, hd⟩ := Nat.exists_eq_add_of_le (not_le.mp h).le
    have hpos : 0 < 2 ^ d := Nat.two_pow_pos d
    have hlow : 2 ^ 32 * 2 ^ d - 1 = 2 ^ 32 * (2 ^ d - 1) + (2 ^ 32 - 1) := by
      rw [Nat.mul_sub]
      omega
    rw [min_eq_right (by omega), hd, pow_add, hlow, mul_add_mod, mod_eq_of_lt (by decide)]

theorem toNat_masked (c : Size) (n : Nat) :
    (ofInt 32 n &&& c.indexMask).toNat = n % 2 ^ min c.indexShift 32 := by
  have hdvd : 2 ^ min c.indexShift 32 ∣ 2 ^ 32 := pow_dvd_pow 2 (min_le_right _ _)
  rw [BitVec.toNat_and, toNat_indexMask, and_two_pow_sub_one_eq_mod, BitVec.ofInt_natCast,
    toNat_ofNat, mod_mod_of_dvd _ hdvd]

theorem toNat_masked_of_le (h : c.indexShift ≤ 31) (n : Nat) :
    (ofInt 32 n &&& c.indexMask).toNat = n % c.size := by
  rw [toNat_masked, min_eq_left (by omega), Size.size]

theorem toNat_masked_of_lt (h : 31 ≤ c.indexShift) {n : Nat} (hn : n < 2 ^ 31) :
    (ofInt 32 n &&& c.indexMask).toNat = n := by
  have hle : 2 ^ 31 ≤ 2 ^ min c.indexShift 32 := Nat.pow_le_pow_right (by decide) (by omega)
  rw [toNat_masked, mod_eq_of_lt (by omega)]

theorem toNat_signExtend_of_lt {i : BitVec 32} (h : i.toNat < 2 ^ 31) :
    (i.signExtend 64).toNat = i.toNat := by
  have hmsb : i.msb = false := BitVec.msb_eq_false_iff_two_mul_lt.mpr (by omega)
  rw [BitVec.signExtend_eq_setWidth_of_msb_false hmsb, BitVec.toNat_setWidth]
  omega

theorem le_toNat_signExtend {i : BitVec 32} (h : 2 ^ 31 ≤ i.toNat) :
    2 ^ 63 ≤ (i.signExtend 64).toNat := by
  have hmsb : i.msb = true := BitVec.msb_eq_true_iff_two_mul_ge.mpr (by omega)
  rw [BitVec.toNat_signExtend, hmsb, if_pos rfl]
  omega

theorem size_le_of_shift_le {k : Nat} (h : c.indexShift ≤ k) : c.size ≤ 2 ^ k :=
  Nat.pow_le_pow_right (by decide) h

theorem le_size_of_le_shift {k : Nat} (h : k ≤ c.indexShift) : 2 ^ k ≤ c.size :=
  Nat.pow_le_pow_right (by decide) h

theorem calculateIndex_of_le (h : c.indexShift ≤ 31) (n : Nat) :
    calculateIndex c n = n % c.size := by
  have hsize := size_le_of_shift_le h
  have hmod := mod_lt n c.size_pos
  have hmasked := toNat_masked_of_le h n
  rw [calculateIndex, toNat_signExtend_of_lt (by omega), hmasked]

theorem calculateIndex_of_lt (h : 31 ≤ c.indexShift) {n : Nat} (hn : n < 2 ^ 31) :
    calculateIndex c n = n := by
  have hmasked := toNat_masked_of_lt h hn
  rw [calculateIndex, toNat_signExtend_of_lt (by omega), hmasked]

theorem toNat_calculateAvailabilityFlag {n : Nat} (hn : n < 2 ^ 64) :
    (calculateAvailabilityFlag c n).toNat = n / c.size % 2 ^ 32 := by
  rw [calculateAvailabilityFlag, BitVec.ofInt_natCast, BitVec.truncate_eq_setWidth,
    BitVec.toNat_setWidth, BitVec.toNat_ushiftRight, toNat_ofNat, mod_eq_of_lt hn,
    Nat.shiftRight_eq_div_pow, Size.size]

/-- As far as `top` the slots are used in turn, lap after lap, and a slot
shows which of two laps in succession it was marked in. -/
structure Addressing (c : Size) (top : Int) : Prop where
  index_lt {x : Int} (h0 : 0 ≤ x) (hx : x < top) : calculateIndex c x < c.size
  index_ne {x y : Int} (h0 : 0 ≤ x) (hxy : x < y) (hy : y < top) (hlap : y < x + c.size) :
    calculateIndex c x ≠ calculateIndex c y
  index_lap {y : Int} (hlap : c.size ≤ y) (hy : y < top) :
    calculateIndex c (y - c.size) = calculateIndex c y
  flag_lap {y : Int} (hlap : c.size ≤ y) (hy : y < top) :
    calculateAvailabilityFlag c (y - c.size) ≠ calculateAvailabilityFlag c y
  flag_first {y : Int} (h0 : 0 ≤ y) (hy : y < c.size) : calculateAvailabilityFlag c y ≠ -1

theorem flag_first {y : Int} (h0 : 0 ≤ y) (hy : y < c.size) :
    calculateAvailabilityFlag c y ≠ -1 := by
  obtain ⟨n, rfl⟩ := eq_ofNat_of_zero_le h0
  have hn : n < c.size := by exact_mod_cast hy
  have hsize : c.size ≤ 2 ^ 63 := size_le_of_shift_le c.fits.le
  intro hflag
  have hlap := congrArg BitVec.toNat hflag
  rw [toNat_calculateAvailabilityFlag (by omega), div_eq_of_lt hn] at hlap
  exact absurd hlap (by decide)

theorem flag_lap {y : Int} (hlap : c.size ≤ y) (hy : y < 2 ^ 63) :
    calculateAvailabilityFlag c (y - c.size) ≠ calculateAvailabilityFlag c y := by
  obtain ⟨n, rfl⟩ := eq_ofNat_of_zero_le (show 0 ≤ y by omega)
  have hle : c.size ≤ n := by exact_mod_cast hlap
  intro hflag
  have hlaps := congrArg BitVec.toNat hflag
  rw [← Int.natCast_sub hle, toNat_calculateAvailabilityFlag (by omega),
    toNat_calculateAvailabilityFlag (by omega), div_eq_sub_div c.size_pos hle] at hlaps
  omega

theorem addressing_of_shift_le (h : c.indexShift ≤ 31) : Addressing c (2 ^ 63) where
  index_lt := by
    intro x h0 _
    obtain ⟨n, rfl⟩ := eq_ofNat_of_zero_le h0
    rw [calculateIndex_of_le h]
    exact mod_lt n c.size_pos
  index_ne := by
    intro x y h0 hxy _ hlap
    obtain ⟨m, rfl⟩ := eq_ofNat_of_zero_le h0
    obtain ⟨n, rfl⟩ := eq_ofNat_of_zero_le (h0.trans hxy.le)
    rw [calculateIndex_of_le h, calculateIndex_of_le h]
    intro hsame
    -- two numbers in one slot are a whole number of laps apart
    have hdvd : c.size ∣ n - m := (modEq_iff_dvd' (by omega)).mp hsame
    have hpos : 0 < n - m := by omega
    have hle := le_of_dvd hpos hdvd
    omega
  index_lap := by
    intro y hlap _
    obtain ⟨n, rfl⟩ := eq_ofNat_of_zero_le (show 0 ≤ y by omega)
    have hle : c.size ≤ n := by exact_mod_cast hlap
    rw [← Int.natCast_sub hle, calculateIndex_of_le h, calculateIndex_of_le h,
      ← mod_eq_sub_mod hle]
  flag_lap := flag_lap
  flag_first := flag_first

theorem addressing_of_le_shift (h : 31 ≤ c.indexShift) : Addressing c (2 ^ 31) where
  index_lt := by
    intro x h0 hx
    have hsize := le_size_of_le_shift h
    obtain ⟨n, rfl⟩ := eq_ofNat_of_zero_le h0
    rw [calculateIndex_of_lt h (by omega)]
    omega
  index_ne := by
    intro x y h0 hxy hy _
    obtain ⟨m, rfl⟩ := eq_ofNat_of_zero_le h0
    obtain ⟨n, rfl⟩ := eq_ofNat_of_zero_le (h0.trans hxy.le)
    rw [calculateIndex_of_lt h (by omega), calculateIndex_of_lt h (by omega)]
    omega
  index_lap := by
    intro y hlap hy
    have hsize := le_size_of_le_shift h
    omega
  flag_lap hlap hy := flag_lap hlap (by omega)
  flag_first := flag_first

theorem Addressing.mono {top top' : Int} (h : Addressing c top) (hle : top' ≤ top) :
    Addressing c top' where
  index_lt h0 hx := h.index_lt h0 (by omega)
  index_ne h0 hxy hy hlap := h.index_ne h0 hxy (by omega) hlap
  index_lap hlap hy := h.index_lap hlap (by omega)
  flag_lap hlap hy := h.flag_lap hlap (by omega)
  flag_first := h.flag_first

theorem toInt_of_toNat_lt {i : BitVec 32} (h : i.toNat < 2 ^ 31) : i.toInt = i.toNat := by
  rw [BitVec.toInt_eq_toNat_cond, if_pos (by omega)]

/-- With at most `2 ^ 30` slots, every sequence number has its entry. -/
theorem entryIndex_of_shift_le (h : c.indexShift ≤ 30) (n : Nat) :
    entryIndex c n = some (rbPad + n % c.size) := by
  have hsize := size_le_of_shift_le h
  have hmod := mod_lt n c.size_pos
  have hmasked := toNat_masked_of_le (show c.indexShift ≤ 31 by omega) n
  unfold entryIndex
  rw [toInt_of_toNat_lt (by omega), hmasked, if_pos ⟨by omega, by unfold rbPad; omega⟩]
  congr 1

theorem entryIndex_of_lt (h : 31 ≤ c.indexShift) {n : Nat} (hn : n < 2 ^ 31 - 16) :
    entryIndex c n = some (rbPad + n) := by
  have hmasked := toNat_masked_of_lt h (show n < 2 ^ 31 by omega)
  unfold entryIndex
  rw [toInt_of_toNat_lt (by omega), hmasked, if_pos ⟨by omega, by unfold rbPad; omega⟩]
  congr 1

/-- The sum of the padding and the index leaves `std::int32_t`. -/
theorem entryIndex_overflow (h : 31 ≤ c.indexShift) : entryIndex c (2 ^ 31 - 16 : Nat) = none := by
  have hmasked := toNat_masked_of_lt h (show 2 ^ 31 - 16 < 2 ^ 31 by decide)
  unfold entryIndex
  rw [toInt_of_toNat_lt (by omega), hmasked, if_neg (by unfold rbPad; omega)]

theorem RingBuffer.at?_isSome {T σ : Type} {ring : RingBuffer T σ c} {x : Int} {i : Nat}
    (h : entryIndex c x = some i) (hi : i < c.size + 2 * rbPad) : (ring.at? x).isSome := by
  rw [RingBuffer.at?, h, bind_some, Vector.getElem?_eq_getElem hi]
  rfl

end Addressing

/-! ## The marks -/

section Marks

open MultiThreadedStrategy

variable {c : Size} {s : MultiThreadedStrategy c} {top p : Int} {published : Int → Prop}

/-- Ahead of a consumer at `p`, the marks tell what was published. -/
def Marks (s : MultiThreadedStrategy c) (top p : Int) (published : Int → Prop) : Prop :=
  ∀ y, p < y → y ≤ p + c.size → y < top →
    (published y → isAvailable s y = some true) ∧ (¬ published y → isAvailable s y = some false)

theorem isAvailable_eq {x : Int} {flag : BitVec 32}
    (h : s.availableBuffer[calculateIndex c x]? = some flag) :
    isAvailable s x = some (flag == calculateAvailabilityFlag c x) := by
  rw [isAvailable, h]
  rfl

theorem eq_flag_of_isAvailable {x : Int} (h : isAvailable s x = some true) :
    s.availableBuffer[calculateIndex c x]? = some (calculateAvailabilityFlag c x) := by
  obtain ⟨_, hflag, heq⟩ := Option.map_eq_some_iff.mp h
  rw [hflag, beq_iff_eq.mp heq]

variable (hc : Addressing c top)
include hc

theorem marks_init : Marks ({} : MultiThreadedStrategy c) top (-1) fun _ => False := by
  intro y hp hy htop
  refine ⟨False.elim, fun _ => ?_⟩
  have hlt := hc.index_lt (by omega) htop
  have hslot : ({} : MultiThreadedStrategy c).availableBuffer[calculateIndex c y]? = some (-1) := by
    rw [Vector.getElem?_eq_getElem hlt]
    exact congrArg some (Vector.getElem_replicate hlt)
  rw [isAvailable_eq hslot]
  have hne := hc.flag_first (show 0 ≤ y by omega) (by omega)
  exact congrArg some (beq_eq_false_iff_ne.mpr hne.symm)

omit hc in
/-- Claims and refused claims do not touch the marks. -/
theorem Marks.congr {s' : MultiThreadedStrategy c} (h : Marks s top p published)
    (hbuffer : s'.availableBuffer = s.availableBuffer) : Marks s' top p published := by
  intro y hp hy htop
  have hsame : isAvailable s' y = isAvailable s y := by rw [isAvailable, isAvailable, hbuffer]
  rw [hsame]
  exact h y hp hy htop

theorem setAvailable_eq {x : Int} (h0 : 0 ≤ x) (hx : x < top) :
    ∃ s', publish s x = some s' ∧ s'.cursor = s.cursor ∧
      s'.gatingSequenceCache = s.gatingSequenceCache ∧ isAvailable s' x = some true ∧
      ∀ y, calculateIndex c x ≠ calculateIndex c y → isAvailable s' y = isAvailable s y := by
  have hlt := hc.index_lt h0 hx
  refine ⟨_, dif_pos hlt, rfl, rfl, ?_, fun y hne => ?_⟩
  · rw [isAvailable]
    rw [Vector.getElem?_set_self hlt, Option.map_some, beq_self_eq_true]
  · rw [isAvailable, isAvailable]
    rw [Vector.getElem?_set_ne hlt hne]

theorem Marks.publish (hp : -1 ≤ p) (h : Marks s top p published) {x : Int}
    (hpx : p < x) (hlap : x ≤ p + c.size) (hx : x < top) :
    ∃ s', publish s x = some s' ∧ s'.cursor = s.cursor ∧
      s'.gatingSequenceCache = s.gatingSequenceCache ∧
      Marks s' top p fun y => y = x ∨ published y := by
  obtain ⟨s', hs', hcur, hcache, hself, hother⟩ := setAvailable_eq hc (by omega) hx
  refine ⟨s', hs', hcur, hcache, fun y hpy hy htop => ?_⟩
  by_cases hyx : y = x
  · subst hyx
    exact ⟨fun _ => hself, fun hno => absurd (Or.inl rfl) hno⟩
  · have hne : calculateIndex c x ≠ calculateIndex c y := by
      rcases lt_or_gt_of_ne hyx with hlt | hgt
      · exact (hc.index_ne (by omega) hlt hx (by omega)).symm
      · exact hc.index_ne (by omega) hgt htop (by omega)
    rw [hother y hne]
    obtain ⟨hyes, hno⟩ := h y hpy hy htop
    exact ⟨fun hpub => hyes (hpub.resolve_left hyx), fun hpub => hno fun hold => hpub (Or.inr hold)⟩

/-- The consumer goes on over published sequences: their slots come into view
again for the next lap, and their marks are those of this one. -/
theorem Marks.advance (hp : -1 ≤ p) (h : Marks s top p published) {p' : Int}
    (hpp' : p ≤ p') (hp' : p' ≤ p + c.size) (hdone : ∀ x, p < x → x ≤ p' → published x)
    (hahead : ∀ x, p + c.size < x → ¬ published x) : Marks s top p' published := by
  intro y hpy hy htop
  by_cases hview : y ≤ p + c.size
  · exact h y (by omega) hview htop
  · refine ⟨fun hpub => absurd hpub (hahead y (by omega)), fun _ => ?_⟩
    have hlast := (h (y - c.size) (by omega) (by omega) (by omega)).1
      (hdone _ (by omega) (by omega))
    have hslot := eq_flag_of_isAvailable hlast
    rw [hc.index_lap (by omega) htop] at hslot
    rw [isAvailable_eq hslot]
    exact congrArg some (beq_eq_false_iff_ne.mpr (hc.flag_lap (by omega) htop))

omit hc

/-- How far a consumer at `p` may read: up to the first sequence that is not
published. -/
structure Frontier (published : Int → Prop) (p cursor v : Int) : Prop where
  lower : p ≤ v
  upper : v ≤ cursor
  below : ∀ x, p < x → x ≤ v → published x
  stops : v < cursor → ¬ published (v + 1)

theorem highestPublishedFrom_spec (hp : -1 ≤ p) (h : Marks s top p published) {cursor : Int}
    (htop : cursor < top) (hmax : top ≤ 2 ^ 63 - 1) (hlap : cursor ≤ p + c.size) :
    ∀ {rounds : Nat} {x : Int}, p < x → x + rounds = cursor + 1 →
      (∀ y, p < y → y < x → published y) →
      ∃ v, highestPublishedFrom s cursor rounds x = some v ∧ Frontier published p cursor v
  | 0, x, hpx, hrnds, hbelow =>
    ⟨cursor, rfl, by omega, le_rfl, fun y hy hle => hbelow y hy (by omega), fun hlt => by omega⟩
  | rounds + 1, x, hpx, hrnds, hbelow => by
    have hview := h x hpx (by push_cast at hrnds; omega) (by push_cast at hrnds; omega)
    unfold highestPublishedFrom
    by_cases hpub : published x
    · rw [hview.1 hpub, bind_eq_bind, bind_some, if_pos rfl,
        int64_of_lt (by omega) (by push_cast at hrnds; omega), bind_eq_bind, bind_some]
      refine highestPublishedFrom_spec hp h htop hmax hlap (by omega)
        (by push_cast at hrnds; omega) fun y hy hlt => ?_
      rcases eq_or_lt_of_le (lt_add_one_iff.mp hlt) with rfl | hlt
      · exact hpub
      · exact hbelow y hy hlt
    · rw [hview.2 hpub, bind_eq_bind, bind_some, if_neg (by decide)]
      refine ⟨x - 1, rfl, by omega, by push_cast at hrnds; omega,
        fun y hy hle => hbelow y hy (by omega), fun _ => ?_⟩
      rwa [sub_add_cancel]

/-- A consumer at `p` that was told earlier that it may read up to `last`. -/
theorem getHighestPublishedSequence_spec (hp : -1 ≤ p) (h : Marks s top p published) {last : Int}
    (hle : p ≤ s.cursor) (htop : s.cursor < top) (hmax : top ≤ 2 ^ 63 - 1)
    (hlap : s.cursor ≤ p + c.size) (hlast : last ≤ s.cursor)
    (hbelow : ∀ x, p < x → x ≤ last → published x) :
    ∃ v, getHighestPublishedSequence s (max last (p + 1)) s.cursor = some v ∧
      Frontier published p s.cursor v :=
  highestPublishedFrom_spec hp h htop hmax hlap (by omega) (by omega) fun y hy hlt =>
    hbelow y hy (by omega)

end Marks

end OpenCmw.Disruptor
