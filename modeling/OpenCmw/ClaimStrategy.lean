import OpenCmw.Machine

/-!
# Claiming slots of a ring buffer

Producers claim the next `n` sequence numbers of a ring of `SIZE` slots; the
slot of a sequence number is reused `SIZE` numbers later, so a claim up to
`r` has to wait until every consumer (gating sequence) has reached
`r - SIZE`. Both strategies compare with a remembered minimum of the gating
sequences first and look at the sequences themselves only if that does not
do, or cannot be right.

`Claiming` is what a claim strategy owes: the next claim starts behind the
last one, and the remembered minimum - old, or taken anew - allows it. Both
strategies do (`claiming`), and all that is said about runs, in which
consumers advance between the calls, follows from it: the remembered minimum
is never above a gating sequence (`Safe`).

A call is one step. A call of `next` that would spin has no step, and neither
has one whose arithmetic leaves `std::int64_t` or whose slot lies outside the
buffer.
-/

namespace OpenCmw.Disruptor

open Option (map_eq_some_iff bind_eq_bind bind_some map_some bind_eq_some_iff)

/-- `kInitialCursorValue`. -/
def initialCursorValue : Int := -1

/-- A value computed in `std::int64_t`. -/
def int64 (x : Int) : Option Int :=
  if -2 ^ 63 ≤ x ∧ x < 2 ^ 63 then some x else none

theorem int64_eq_some {x y : Int} (h : int64 x = some y) : y = x := by
  unfold int64 at h
  split_ifs at h
  exact (Option.some.inj h).symm

/-- `SIZE`, a power of two that `std::int64_t` can hold: a ring has an array
of that many entries. -/
structure Size where
  indexShift : Nat
  fits : indexShift < 63

def Size.size (c : Size) : Nat := 2 ^ c.indexShift

/-! ## Sequences -/

variable (sequences : List Int)

def getMinimumSequence (minimum : Int) : Int :=
  match sequences.min? with
  | none => minimum
  | some m => min minimum m

theorem le_getMinimumSequence_iff {sequences : List Int} {minimum x : Int} :
    x ≤ getMinimumSequence sequences minimum ↔ x ≤ minimum ∧ ∀ g ∈ sequences, x ≤ g := by
  unfold getMinimumSequence
  cases hmin : sequences.min? with
  | none => simp [List.min?_eq_none_iff.mp hmin]
  | some m => rw [le_min_iff, List.le_min?_iff hmin]

theorem getMinimumSequence_le (minimum : Int) : getMinimumSequence sequences minimum ≤ minimum :=
  (le_getMinimumSequence_iff.mp le_rfl).1

theorem getMinimumSequence_le_of_mem {sequences : List Int} {g : Int} (minimum : Int)
    (hg : g ∈ sequences) : getMinimumSequence sequences minimum ≤ g :=
  (le_getMinimumSequence_iff.mp le_rfl).2 g hg

/-- `n` added sequences start where the cursor is. -/
def addSequences (cursor : Int) (n : Nat) : List Int :=
  sequences ++ List.replicate n cursor

/-! ## The strategies -/

inductive NoCapacityException where
  | noCapacity
  deriving DecidableEq

/-- What a ring buffer asks of its strategy: claiming and publishing for the
producers, and for the consumers how far they may read. -/
structure ClaimStrategy (σ : Type) where
  init : σ
  cursor : σ → Int
  next : σ → List Int → Int → Option (Int × σ)
  tryNext : σ → List Int → Int → Option (Except NoCapacityException Int × σ)
  publish : σ → Int → Option σ
  getHighestPublishedSequence : σ → Int → Int → Option Int

structure SingleThreadedStrategy where
  cursor : Int := initialCursorValue
  nextValue : Int := initialCursorValue
  cachedValue : Int := initialCursorValue
  deriving DecidableEq

namespace SingleThreadedStrategy

def hasAvailableCapacity (c : Size) (s : SingleThreadedStrategy) (dependents : List Int)
    (requiredCapacity : Int) : Option (Bool × SingleThreadedStrategy) := do
  let wrapPoint := (← int64 (s.nextValue + requiredCapacity)) - c.size
  if wrapPoint > s.cachedValue ∨ s.cachedValue > s.nextValue then
    let minSequence := getMinimumSequence dependents s.nextValue
    return (decide (wrapPoint ≤ minSequence), { s with cachedValue := minSequence })
  else
    return (true, s)

def next (c : Size) (s : SingleThreadedStrategy) (dependents : List Int) (nSlotsToClaim : Int) :
    Option (Int × SingleThreadedStrategy) := do
  let nextSequence ← int64 (s.nextValue + nSlotsToClaim)
  let wrapPoint := nextSequence - c.size
  if wrapPoint > s.cachedValue ∨ s.cachedValue > s.nextValue then
    let minSequence := getMinimumSequence dependents s.nextValue
    -- the sequences do not move within the call, so the loop goes on for ever
    if wrapPoint > minSequence then none
    return (nextSequence,
      { cursor := s.nextValue, nextValue := nextSequence, cachedValue := minSequence })
  else
    return (nextSequence, { s with nextValue := nextSequence })

def tryNext (c : Size) (s : SingleThreadedStrategy) (dependents : List Int)
    (nSlotsToClaim : Int) : Option (Except NoCapacityException Int × SingleThreadedStrategy) := do
  let (available, s) ← hasAvailableCapacity c s dependents nSlotsToClaim
  if available then
    let nextSequence ← int64 (s.nextValue + nSlotsToClaim)
    return (.ok nextSequence, { s with nextValue := nextSequence })
  else
    return (.error .noCapacity, s)

def publish (s : SingleThreadedStrategy) (sequence : Int) : SingleThreadedStrategy :=
  { s with cursor := sequence }

def getHighestPublishedSequence (_ : SingleThreadedStrategy) (_ availableSequence : Int) : Int :=
  availableSequence

def strategy (c : Size) : ClaimStrategy SingleThreadedStrategy where
  init := {}
  cursor := cursor
  next := next c
  tryNext := tryNext c
  publish s sequence := some (publish s sequence)
  getHighestPublishedSequence s lowerBound availableSequence :=
    some (getHighestPublishedSequence s lowerBound availableSequence)

end SingleThreadedStrategy

structure MultiThreadedStrategy (c : Size) where
  cursor : Int := initialCursorValue
  availableBuffer : Vector (BitVec 32) c.size := Vector.replicate c.size (-1)
  gatingSequenceCache : Int := initialCursorValue

/-- `_indexMask`, the conversion of `SIZE - 1` to `std::int32_t`. -/
def Size.indexMask (c : Size) : BitVec 32 := BitVec.ofNat 32 (c.size - 1)

namespace MultiThreadedStrategy

variable {c : Size} (s : MultiThreadedStrategy c) (dependents : List Int)

def hasAvailableCapacity
    (requiredCapacity cursorValue : Int) : Option (Bool × MultiThreadedStrategy c) := do
  let wrapPoint := (← int64 (cursorValue + requiredCapacity)) - c.size
  if wrapPoint > s.gatingSequenceCache ∨ s.gatingSequenceCache > cursorValue then
    let minSequence := getMinimumSequence dependents cursorValue
    return (decide (wrapPoint ≤ minSequence), { s with gatingSequenceCache := minSequence })
  else
    return (true, s)

variable (nSlotsToClaim : Int)

/-- One round of the loop in `next`; without a sequence it goes on. -/
def nextRound : Option (Option Int × MultiThreadedStrategy c) := do
  let next ← int64 (s.cursor + nSlotsToClaim)
  let wrapPoint := next - c.size
  if wrapPoint > s.gatingSequenceCache ∨ s.gatingSequenceCache > s.cursor then
    let gatingSequence := getMinimumSequence dependents s.cursor
    if wrapPoint > gatingSequence then
      return (none, s)
    else
      return (none, { s with gatingSequenceCache := gatingSequence })
  else
    -- nobody else moves the cursor within the call, `compareAndSet` succeeds
    return (some next, { s with cursor := next })

def nextRounds : Nat → MultiThreadedStrategy c → List Int → Int →
    Option (Int × MultiThreadedStrategy c)
  | 0, _, _, _ => none
  | rounds + 1, s, dependents, nSlotsToClaim => do
    match ← nextRound s dependents nSlotsToClaim with
    | (some next, s) => return (next, s)
    | (none, s) => nextRounds rounds s dependents nSlotsToClaim

/-- One round to refresh the cache and one to claim; see `next_of_nextRounds`. -/
def next : Option (Int × MultiThreadedStrategy c) :=
  nextRounds 2 s dependents nSlotsToClaim

def tryNext : Option (Except NoCapacityException Int × MultiThreadedStrategy c) := do
  let current := s.cursor
  let next ← int64 (current + nSlotsToClaim)
  let (available, s) ← hasAvailableCapacity s dependents nSlotsToClaim current
  if available then
    return (.ok next, { s with cursor := next })
  else
    return (.error .noCapacity, s)

def calculateAvailabilityFlag (c : Size) (sequence : Int) : BitVec 32 :=
  ((BitVec.ofInt 64 sequence) >>> c.indexShift).truncate 32

/-- The index is computed in `std::int32_t` and widened to `std::size_t`. -/
def calculateIndex (c : Size) (sequence : Int) : Nat :=
  ((BitVec.ofInt 32 sequence &&& c.indexMask).signExtend 64).toNat

def setAvailable (sequence : Int) : Option (MultiThreadedStrategy c) :=
  if h : calculateIndex c sequence < c.size then
    some { s with
      availableBuffer :=
        s.availableBuffer.set (calculateIndex c sequence) (calculateAvailabilityFlag c sequence) h }
  else none

def publish (sequence : Int) : Option (MultiThreadedStrategy c) :=
  setAvailable s sequence

def isAvailable (sequence : Int) : Option Bool :=
  s.availableBuffer[calculateIndex c sequence]?.map (· == calculateAvailabilityFlag c sequence)

/-- The loop of `getHighestPublishedSequence` with `rounds` sequences to go. -/
def highestPublishedFrom (s : MultiThreadedStrategy c) (availableSequence : Int) :
    (rounds : Nat) → (sequence : Int) → Option Int
  | 0, _ => some availableSequence
  | rounds + 1, sequence => do
    if ← isAvailable s sequence then
      highestPublishedFrom s availableSequence rounds (← int64 (sequence + 1))
    else
      return sequence - 1

def getHighestPublishedSequence (lowerBound availableSequence : Int) : Option Int :=
  highestPublishedFrom s availableSequence (availableSequence + 1 - lowerBound).toNat lowerBound

def strategy (c : Size) : ClaimStrategy (MultiThreadedStrategy c) where
  init := {}
  cursor := cursor
  next := next
  tryNext := tryNext
  publish := publish
  getHighestPublishedSequence := getHighestPublishedSequence

end MultiThreadedStrategy

/-! ## What a strategy owes -/

/-- A claim of `n` slots up to `r`: it starts behind what was claimed, and
the minimum that allowed it is the remembered one or the current one. -/
structure Granted (c : Size) (dependents : List Int) (claimed cache n r claimed' cache' : Int) :
    Prop where
  follows : r = claimed + n
  claims : claimed' = r
  room : r - c.size ≤ cache'
  cached : cache' = cache ∨ cache' = getMinimumSequence dependents claimed

/-- Whether remembered or taken anew, the minimum is below the sequences. -/
theorem Granted.cache_le {c : Size} {dependents : List Int} {claimed cache n r claimed' cache' g : Int}
    (h : Granted c dependents claimed cache n r claimed' cache') (hg : g ∈ dependents)
    (hcache : cache ≤ g) : cache' ≤ g := by
  obtain hold | hnew := h.cached
  · rwa [hold]
  · rw [hnew]
    exact getMinimumSequence_le_of_mem _ hg

structure Claiming {σ : Type} (S : ClaimStrategy σ) (c : Size) (claimed cache : σ → Int) :
    Prop where
  init_claimed : claimed S.init = initialCursorValue
  init_cache : cache S.init = initialCursorValue
  next {s s' : σ} {dependents : List Int} {n r : Int}
    (h : S.next s dependents n = some (r, s')) :
    Granted c dependents (claimed s) (cache s) n r (claimed s') (cache s')
  tryNext {s s' : σ} {dependents : List Int} {n r : Int}
    (h : S.tryNext s dependents n = some (.ok r, s')) :
    Granted c dependents (claimed s) (cache s) n r (claimed s') (cache s')
  noCapacity {s s' : σ} {dependents : List Int} {n : Int} {e : NoCapacityException}
    (h : S.tryNext s dependents n = some (.error e, s')) :
    claimed s' = claimed s ∧ cache s' = getMinimumSequence dependents (claimed s) ∧
      cache s' < claimed s + n - c.size
  publish {s s' : σ} {sequence : Int} (h : S.publish s sequence = some s') :
    claimed s' = claimed s ∧ cache s' = cache s

/-! ## The decision both strategies make -/

/-- Whether there is room for a claim of `n` slots behind `claimed`, the
sequence it would reach, and the minimum to remember. -/
def roomFor (c : Size) (dependents : List Int) (claimed cache n : Int) :
    Option (Bool × Int × Int) :=
  (int64 (claimed + n)).map fun next =>
    if next - c.size > cache ∨ cache > claimed then
      (decide (next - c.size ≤ getMinimumSequence dependents claimed), next,
        getMinimumSequence dependents claimed)
    else (true, next, cache)

section RoomFor

variable {c : Size} {dependents : List Int} {claimed cache n next cache' : Int}

theorem roomFor_true (h : roomFor c dependents claimed cache n = some (true, next, cache')) :
    Granted c dependents claimed cache n next next cache' := by
  obtain ⟨r, hr, h⟩ := map_eq_some_iff.mp h
  obtain rfl := int64_eq_some hr
  split_ifs at h with hlook
  · simp only [Prod.mk.injEq, decide_eq_true_eq] at h
    obtain ⟨hroom, rfl, rfl⟩ := h
    exact ⟨rfl, rfl, hroom, Or.inr rfl⟩
  · simp only [Prod.mk.injEq, true_and] at h
    obtain ⟨rfl, rfl⟩ := h
    exact ⟨rfl, rfl, by omega, Or.inl rfl⟩

theorem roomFor_false (h : roomFor c dependents claimed cache n = some (false, next, cache')) :
    next = claimed + n ∧ cache' = getMinimumSequence dependents claimed ∧
      cache' < next - c.size := by
  obtain ⟨r, hr, h⟩ := map_eq_some_iff.mp h
  obtain rfl := int64_eq_some hr
  split_ifs at h with hlook
  · simp only [Prod.mk.injEq, decide_eq_false_iff_not, not_le] at h
    obtain ⟨hfull, rfl, rfl⟩ := h
    exact ⟨rfl, rfl, hfull⟩
  · simp at h

theorem roomFor_defined (c : Size) (dependents : List Int) (cache : Int)
    (hint : int64 (claimed + n) = some (claimed + n)) :
    ∃ r, roomFor c dependents claimed cache n = some r := by
  rw [roomFor, hint]
  exact ⟨_, rfl⟩

end RoomFor

namespace SingleThreadedStrategy

variable {c : Size} {s : SingleThreadedStrategy} {dependents : List Int} {n : Int}

/-- The slow path also sets the cursor. -/
theorem next_eq : next c s dependents n =
    (roomFor c dependents s.nextValue s.cachedValue n).bind fun (available, next, cache) =>
      if available then
        some (next, ⟨if next - c.size > s.cachedValue ∨ s.cachedValue > s.nextValue then s.nextValue
          else s.cursor, next, cache⟩)
      else none := by
  unfold next roomFor
  cases int64 (s.nextValue + n) with
  | none => rfl
  | some r =>
    rw [bind_eq_bind, bind_some, map_some, bind_some]
    by_cases hlook : r - c.size > s.cachedValue ∨ s.cachedValue > s.nextValue
    · by_cases hfull : r - c.size > getMinimumSequence dependents s.nextValue
      · rw [if_pos hlook, if_pos hlook, if_pos hfull, decide_eq_false (not_le.mpr hfull)]
        rfl
      · rw [if_pos hlook, if_pos hlook, if_neg hfull, decide_eq_true (not_lt.mp hfull)]
        simp only [if_pos hlook]
        rfl
    · simp only [if_neg hlook]
      rfl

theorem hasAvailableCapacity_eq : hasAvailableCapacity c s dependents n =
    (roomFor c dependents s.nextValue s.cachedValue n).map fun (available, _, cache) =>
      (available, { s with cachedValue := cache }) := by
  unfold hasAvailableCapacity roomFor
  cases int64 (s.nextValue + n) with
  | none => rfl
  | some r =>
    rw [bind_eq_bind, bind_some, map_some, map_some]
    dsimp only
    split_ifs <;> rfl

theorem tryNext_eq : tryNext c s dependents n =
    (roomFor c dependents s.nextValue s.cachedValue n).map fun (available, next, cache) =>
      if available then (.ok next, { s with nextValue := next, cachedValue := cache })
      else (.error .noCapacity, { s with cachedValue := cache }) := by
  unfold tryNext
  rw [hasAvailableCapacity_eq]
  cases hroom : roomFor c dependents s.nextValue s.cachedValue n with
  | none => rfl
  | some r =>
    obtain ⟨available, next, cache⟩ := r
    obtain ⟨_, hint, -⟩ := map_eq_some_iff.mp hroom
    cases available with
    | false => rfl
    | true =>
      obtain rfl := (roomFor_true hroom).follows
      rw [int64_eq_some hint] at hint
      simp [hint]

theorem tryNext_cursor {s' : SingleThreadedStrategy} {result : Except NoCapacityException Int}
    (h : tryNext c s dependents n = some (result, s')) : s'.cursor = s.cursor := by
  rw [tryNext_eq] at h
  obtain ⟨⟨_ | _, _, _⟩, -, h⟩ := map_eq_some_iff.mp h
  all_goals
    cases h
    rfl

theorem claiming (c : Size) : Claiming (strategy c) c nextValue cachedValue where
  init_claimed := rfl
  init_cache := rfl
  next := by
    intro s s' dependents n r h
    replace h := next_eq.symm.trans h
    obtain ⟨⟨_ | _, next, cache⟩, hroom, h⟩ := bind_eq_some_iff.mp h
    · cases h
    · cases h
      exact roomFor_true hroom
  tryNext := by
    intro s s' dependents n r h
    replace h := tryNext_eq.symm.trans h
    obtain ⟨⟨_ | _, next, cache⟩, hroom, h⟩ := map_eq_some_iff.mp h
    · cases h
    · obtain ⟨hr, rfl⟩ := Prod.mk.inj h
      cases hr
      exact roomFor_true hroom
  noCapacity := by
    intro s s' dependents n e h
    replace h := tryNext_eq.symm.trans h
    obtain ⟨⟨_ | _, next, cache⟩, hroom, h⟩ := map_eq_some_iff.mp h
    · cases h
      obtain ⟨rfl, hcache, hfull⟩ := roomFor_false hroom
      exact ⟨rfl, hcache, hfull⟩
    · cases h
  publish h := by
    cases h
    exact ⟨rfl, rfl⟩

end SingleThreadedStrategy

namespace MultiThreadedStrategy

variable {c : Size} {s s' : MultiThreadedStrategy c} {dependents : List Int} {n r : Int}

/-- A round claims from the cache as it is, refreshes it, or changes nothing. -/
theorem nextRound_eq_some {claim : Option Int}
    (h : nextRound s dependents n = some (claim, s')) :
    (claim = some (s.cursor + n) ∧ s' = { s with cursor := s.cursor + n } ∧
        s.cursor + n - c.size ≤ s.gatingSequenceCache) ∨
      (claim = none ∧
        s' = { s with gatingSequenceCache := getMinimumSequence dependents s.cursor } ∧
        s.cursor + n - c.size ≤ getMinimumSequence dependents s.cursor) ∨
      (claim = none ∧ s = s') := by
  obtain ⟨_, hnext, h⟩ := bind_eq_some_iff.mp h
  obtain rfl := int64_eq_some hnext
  dsimp only at h
  split_ifs at h with hlook hspin
  · cases h
    exact Or.inr (Or.inr ⟨rfl, rfl⟩)
  · cases h
    exact Or.inr (Or.inl ⟨rfl, rfl, not_lt.mp hspin⟩)
  · cases h
    exact Or.inl ⟨rfl, rfl, by omega⟩

/-- Once refreshed, the cache lets the claim through. -/
theorem nextRound_refreshed
    (hroom : s.cursor + n - c.size ≤ getMinimumSequence dependents s.cursor)
    (hint : int64 (s.cursor + n) = some (s.cursor + n)) :
    nextRound { s with gatingSequenceCache := getMinimumSequence dependents s.cursor }
        dependents n =
      some (some (s.cursor + n), { s with
          cursor := s.cursor + n
          gatingSequenceCache := getMinimumSequence dependents s.cursor }) := by
  have hle := getMinimumSequence_le dependents s.cursor
  unfold nextRound
  rw [hint, bind_eq_bind, bind_some]
  dsimp only
  rw [if_neg (by omega)]
  rfl

/-- The loop of `next` ends in its first two rounds or not at all. -/
theorem next_of_nextRounds : ∀ {rounds : Nat},
    nextRounds rounds s dependents n = some (r, s') → next s dependents n = some (r, s')
  | rounds + 1, h => by
    obtain ⟨⟨_, _⟩, hrnd, h⟩ := bind_eq_some_iff.mp h
    have hint : int64 (s.cursor + n) = some (s.cursor + n) := by
      obtain ⟨next, hnext, -⟩ := bind_eq_some_iff.mp hrnd
      rwa [int64_eq_some hnext] at hnext
    rw [next, nextRounds, hrnd, bind_eq_bind, bind_some]
    obtain ⟨rfl, rfl, -⟩ | ⟨rfl, rfl, hroom⟩ | ⟨rfl, rfl⟩ := nextRound_eq_some hrnd
    · exact h
    · have hsecond := nextRound_refreshed hroom hint
      cases rounds with
      | zero => cases h
      | succ rounds =>
        dsimp only at h ⊢
        rw [nextRounds, hsecond] at h ⊢
        exact h
    · have hnext : next s dependents n = some (r, s') := next_of_nextRounds h
      rw [next, nextRounds, hrnd, bind_eq_bind, bind_some] at hnext
      exact hnext

/-- The loop of `next` without its rounds. -/
theorem next_eq : next s dependents n =
    (roomFor c dependents s.cursor s.gatingSequenceCache n).bind fun (available, next, cache) =>
      if available then some (next, { s with cursor := next, gatingSequenceCache := cache })
      else none := by
  unfold roomFor
  cases hint : int64 (s.cursor + n) with
  | none =>
    rw [next, nextRounds, nextRound, hint]
    rfl
  | some r =>
    obtain rfl := int64_eq_some hint
    have hrnd : nextRound s dependents n =
        if s.cursor + n - c.size > s.gatingSequenceCache ∨ s.gatingSequenceCache > s.cursor then
          if s.cursor + n - c.size > getMinimumSequence dependents s.cursor then some (none, s)
          else some (none, { s with gatingSequenceCache := getMinimumSequence dependents s.cursor })
        else some (some (s.cursor + n), { s with cursor := s.cursor + n }) := by
      unfold nextRound
      rw [hint]
      rfl
    rw [map_some, bind_some, next, nextRounds]
    by_cases hlook : s.cursor + n - c.size > s.gatingSequenceCache ∨
        s.gatingSequenceCache > s.cursor
    · rw [if_pos hlook] at hrnd ⊢
      by_cases hfull : s.cursor + n - c.size > getMinimumSequence dependents s.cursor
      · -- the second round spins like the first
        rw [if_pos hfull] at hrnd
        rw [hrnd, bind_eq_bind, bind_some]
        dsimp only
        rw [nextRounds, hrnd, decide_eq_false (not_le.mpr hfull)]
        rfl
      · rw [if_neg hfull] at hrnd
        rw [hrnd, bind_eq_bind, bind_some]
        dsimp only
        rw [nextRounds, nextRound_refreshed (not_lt.mp hfull) hint, decide_eq_true (not_lt.mp hfull)]
        rfl
    · rw [if_neg hlook] at hrnd ⊢
      rw [hrnd]
      rfl

theorem hasAvailableCapacity_eq : hasAvailableCapacity s dependents n s.cursor =
    (roomFor c dependents s.cursor s.gatingSequenceCache n).map fun (available, _, cache) =>
      (available, { s with gatingSequenceCache := cache }) := by
  unfold hasAvailableCapacity roomFor
  cases int64 (s.cursor + n) with
  | none => rfl
  | some r =>
    rw [bind_eq_bind, bind_some, map_some, map_some]
    dsimp only
    split_ifs <;> rfl

theorem tryNext_eq : tryNext s dependents n =
    (roomFor c dependents s.cursor s.gatingSequenceCache n).map fun (available, next, cache) =>
      if available then (.ok next, { s with cursor := next, gatingSequenceCache := cache })
      else (.error .noCapacity, { s with gatingSequenceCache := cache }) := by
  unfold tryNext
  dsimp only
  rw [hasAvailableCapacity_eq]
  cases hroom : roomFor c dependents s.cursor s.gatingSequenceCache n with
  | none => cases int64 (s.cursor + n) <;> rfl
  | some r =>
    obtain ⟨available, next, cache⟩ := r
    obtain ⟨_, hint, -⟩ := map_eq_some_iff.mp hroom
    rw [int64_eq_some hint] at hint
    cases available with
    | false => simp [hint]
    | true =>
      obtain rfl := (roomFor_true hroom).follows
      simp [hint]

/-- `next` goes on for ever only if there is no room. -/
theorem next_eq_none (hint : int64 (s.cursor + n) = some (s.cursor + n))
    (h : next s dependents n = none) :
    getMinimumSequence dependents s.cursor < s.cursor + n - c.size := by
  obtain ⟨⟨available, next, _⟩, hroom⟩ :=
    roomFor_defined c dependents s.gatingSequenceCache hint
  rw [next_eq, hroom, bind_some] at h
  cases available with
  | true => cases h
  | false =>
    obtain ⟨rfl, rfl, hfull⟩ := roomFor_false hroom
    exact hfull

theorem next_availableBuffer (h : next s dependents n = some (r, s')) :
    s'.availableBuffer = s.availableBuffer := by
  rw [next_eq] at h
  obtain ⟨⟨_ | _, next, _⟩, -, h⟩ := bind_eq_some_iff.mp h
  · cases h
  · cases h
    rfl

theorem tryNext_defined (dependents : List Int)
    (hint : int64 (s.cursor + n) = some (s.cursor + n)) : ∃ r, tryNext s dependents n = some r := by
  obtain ⟨r, hroom⟩ := roomFor_defined c dependents s.gatingSequenceCache hint
  rw [tryNext_eq, hroom]
  exact ⟨_, rfl⟩

theorem tryNext_availableBuffer {result : Except NoCapacityException Int}
    (h : tryNext s dependents n = some (result, s')) : s'.availableBuffer = s.availableBuffer := by
  rw [tryNext_eq] at h
  obtain ⟨⟨_ | _, _, _⟩, -, h⟩ := map_eq_some_iff.mp h
  all_goals
    cases h
    rfl

theorem claiming (c : Size) : Claiming (strategy c) c cursor gatingSequenceCache where
  init_claimed := rfl
  init_cache := rfl
  next := by
    intro s s' dependents n r h
    replace h := next_eq.symm.trans h
    obtain ⟨⟨_ | _, next, cache⟩, hroom, h⟩ := bind_eq_some_iff.mp h
    · cases h
    · cases h
      exact roomFor_true hroom
  tryNext := by
    intro s s' dependents n r h
    replace h := tryNext_eq.symm.trans h
    obtain ⟨⟨_ | _, next, cache⟩, hroom, h⟩ := map_eq_some_iff.mp h
    · cases h
    · obtain ⟨hr, rfl⟩ := Prod.mk.inj h
      cases hr
      exact roomFor_true hroom
  noCapacity := by
    intro s s' dependents n e h
    replace h := tryNext_eq.symm.trans h
    obtain ⟨⟨_ | _, next, cache⟩, hroom, h⟩ := map_eq_some_iff.mp h
    · cases h
      obtain ⟨rfl, hcache, hfull⟩ := roomFor_false hroom
      exact ⟨rfl, hcache, hfull⟩
    · cases h
  publish h := by
    change (if _ : _ then _ else _) = _ at h
    split_ifs at h
    cases h
    exact ⟨rfl, rfl⟩

end MultiThreadedStrategy

end OpenCmw.Disruptor
