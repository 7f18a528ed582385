import OpenCmw.RingBuffer
import OpenCmw.RingClaims

/-!
# One producer, either strategy

One producer claims slots and publishes what `next` or `tryNext` returned at
once, one poller reads. With the single-threaded strategy that publishes the
whole claim, as the cursor moves over it; with the multi-threaded strategy it
marks one slot, the last of the claim, and the poller does not get past the
others.

`Alike` relates the rings as long as they have answered alike, and
`Agreeable` is what a step has to satisfy so that they go on doing so: at a
poll every sequence that is ahead of the poller was returned by a claim, or
the handler stops before it matters. It is also necessary, so the answers of
the two rings agree exactly if every step was agreeable (`answers_eq_iff`).
-/

namespace OpenCmw.Disruptor

open EventPoller (poll)
open SingleThreadedStrategy Option
open RingBuffer (deliver)
open EventPoller (process)
open Int

variable {T σ : Type} {c : Size}

structure Lane (T σ : Type) (c : Size) where
  ring : RingBuffer T σ c
  poller : EventPoller := {}

namespace Lane

inductive Op (T : Type) where
  | next (nSlotsToClaim : Int)
  | tryNext (nSlotsToClaim : Int)
  | poll (handler : Handler T)

inductive Answer (T : Type) where
  | claimed (sequence : Int)
  | noCapacity
  | polled (offers : List (Offer T)) (result : Except HandlerException PollState)

/-- A claim that `publish` follows, or a poll. -/
def step (S : ClaimStrategy σ) (s : Lane T σ c) : Op T → Option (Lane T σ c × Answer T)
  | .next n => do
    let (r, strategy) ← S.next s.ring.strategy [s.poller.sequence] n
    let strategy ← S.publish strategy r
    return ({ s with ring := { s.ring with strategy } }, .claimed r)
  | .tryNext n => do
    match ← S.tryNext s.ring.strategy [s.poller.sequence] n with
    | (.ok r, strategy) =>
      let strategy ← S.publish strategy r
      return ({ s with ring := { s.ring with strategy } }, .claimed r)
    | (.error .noCapacity, strategy) =>
      return ({ s with ring := { s.ring with strategy } }, .noCapacity)
  | .poll handler => do
    let (poller, offers, result) ← poll S s.ring s.poller handler
    return ({ s with poller }, .polled offers result)

/-- The answers up to the first step that does not return. -/
def answers (S : ClaimStrategy σ) : Lane T σ c → List (Op T) → List (Option (Answer T))
  | _, [] => []
  | s, op :: ops =>
    match step S s op with
    | none => [none]
    | some (s', answer) => some answer :: answers S s' ops

def start (S : ClaimStrategy σ) (entries : Vector T (c.size + 2 * rbPad)) : Lane T σ c where
  ring := { entries, strategy := S.init }

/-- `n` is an `std::int32_t`. -/
def Op.Admissible (c : Size) : Op T → Prop
  | next n | tryNext n => 1 ≤ n ∧ n < c.size ∧ n < 2 ^ 31
  | poll _ => True

def Op.slots : Op T → Int
  | next n | tryNext n => n
  | poll _ => 0

theorem Op.Admissible.slots_nonneg {op : Op T} (h : op.Admissible c) : 0 ≤ op.slots := by
  cases op with
  | next n | tryNext n => exact h.1.trans' (by decide)
  | poll handler => exact le_rfl

/-! ## Where the rings agree -/

variable (ring : RingBuffer T σ c) (handler : Handler T)

/-- The handler is offered `x` as one of several and asks for more. -/
def GoesOn (x : Int) : Prop :=
  ∃ event, ring.at? x = some event ∧ handler event x false = .returned true

/-- The handler goes no further than `x`. -/
def StopsAt (x : Int) : Prop :=
  ∃ event, ring.at? x = some event ∧ handler event x false ≠ .returned true

/-- The delivery from `p` on ends before `v`, or `v` has no entry. -/
def StopsBefore (p v : Int) : Prop :=
  ∃ x, p < x ∧ (∀ y, p < y → y < x → GoesOn ring handler y) ∧
    (x ≤ v ∧ ring.at? x = none ∨ x < v ∧ StopsAt ring handler x)

/-- `returned` are the sequences that claims have returned. -/
def Agreeable (s : Lane T SingleThreadedStrategy c) (returned : List Int) : Op T → Prop
  | .poll handler =>
    ∀ v, Frontier (· ∈ returned) s.poller.sequence s.ring.strategy.cursor v →
      v = s.ring.strategy.cursor ∨ StopsBefore s.ring handler s.poller.sequence v
  | op => ∀ s' r, step (strategy c) s op = some (s', .claimed r) →
    c.indexShift ≤ 31 ∨ r < 2 ^ 31

def Answer.returned : Answer T → List Int
  | claimed r => [r]
  | _ => []

/-- Every step of the run of the single-threaded ring is agreeable. -/
def AllAgreeable : Lane T SingleThreadedStrategy c → List Int → List (Op T) → Prop
  | _, _, [] => True
  | s, returned, op :: ops =>
    Agreeable s returned op ∧
      ∀ s' answer, step (strategy c) s op = some (s', answer) →
        AllAgreeable s' (answer.returned ++ returned) ops

/-! ## Claims -/

section Claims

variable {s : SingleThreadedStrategy} {m : MultiThreadedStrategy c}

/-- Both strategies have claimed as much and remember the same minimum. -/
structure SameClaims (s : SingleThreadedStrategy) (m : MultiThreadedStrategy c) : Prop where
  claimed : m.cursor = s.nextValue
  cache : m.gatingSequenceCache = s.cachedValue

theorem SameClaims.next (h : SameClaims s m) (dependents : List Int) (n : Int) :
    (next c s dependents n = none ∧
        MultiThreadedStrategy.next m dependents n = none) ∨
      ∃ r s' m', next c s dependents n = some (r, s') ∧
        MultiThreadedStrategy.next m dependents n = some (r, m') ∧ SameClaims s' m' := by
  rw [next_eq, MultiThreadedStrategy.next_eq, h.claimed, h.cache]
  cases roomFor c dependents s.nextValue s.cachedValue n with
  | none => exact Or.inl ⟨rfl, rfl⟩
  | some r =>
    obtain ⟨_ | _, _, _⟩ := r
    · exact Or.inl ⟨rfl, rfl⟩
    · exact Or.inr ⟨_, _, _, rfl, rfl, rfl, rfl⟩

theorem SameClaims.tryNext (h : SameClaims s m) (dependents : List Int) (n : Int) :
    (tryNext c s dependents n = none ∧
        MultiThreadedStrategy.tryNext m dependents n = none) ∨
      ∃ r s' m', tryNext c s dependents n = some (r, s') ∧
        MultiThreadedStrategy.tryNext m dependents n = some (r, m') ∧ SameClaims s' m' := by
  rw [tryNext_eq, MultiThreadedStrategy.tryNext_eq, h.claimed, h.cache]
  cases roomFor c dependents s.nextValue s.cachedValue n with
  | none => exact Or.inl ⟨rfl, rfl⟩
  | some r =>
    obtain ⟨_ | _, _, _⟩ := r
    · exact Or.inr ⟨_, _, _, rfl, rfl, rfl, rfl⟩
    · exact Or.inr ⟨_, _, _, rfl, rfl, rfl, rfl⟩

end Claims

/-! ## Polls -/

section Polls

variable {ring : RingBuffer T σ c} {handler : Handler T} {p v cursor : Int} {available : Int}

theorem deliver_endOfBatch : ∀ {rounds : Nat} {processed next : Int}
    {d : Delivery T}, ring.deliver handler available rounds processed next = some d →
      ∀ o ∈ d.offers, o.endOfBatch = (o.sequence == available)
  | 0, _, _, _, h, o, ho => by
    cases h
    cases ho
  | rounds + 1, processed, next, d, h, o, ho => by
    obtain ⟨_, -, h⟩ := bind_eq_some_iff.mp h
    dsimp only at h
    split at h
    next =>
      cases h
      obtain rfl := List.mem_singleton.mp ho
      rfl
    next =>
      obtain ⟨_, -, h⟩ := bind_eq_some_iff.mp h
      split_ifs at h
      · obtain ⟨_, hd', h⟩ := bind_eq_some_iff.mp h
        cases h
        rcases List.mem_cons.mp ho with rfl | ho
        · rfl
        · exact deliver_endOfBatch hd' o ho
      · cases h
        obtain rfl := List.mem_singleton.mp ho
        rfl

/-- One round in which the handler asks for more. -/
theorem deliver_goesOn (available : Int) (rounds : Nat) (hgo : GoesOn ring handler (p + 1))
    (hlt : p + 1 < available) (hmax : available < 2 ^ 63 - 1) (hp : -1 ≤ p) :
    ∃ event, ring.at? (p + 1) = some event ∧
      ring.deliver handler available (rounds + 1) p (p + 1) =
        (ring.deliver handler available rounds (p + 1) (p + 1 + 1)).map fun d =>
          { d with offers := ⟨event, p + 1, false, .returned true⟩ :: d.offers } := by
  obtain ⟨event, hevent, hret⟩ := hgo
  have hnot : (p + 1 == available) = false := beq_eq_false_iff_ne.mpr hlt.ne
  refine ⟨event, hevent, ?_⟩
  rw [deliver, hevent, bind_eq_bind, bind_some]
  simp only [hnot, hret]
  rw [int64_of_lt (by omega) (by omega), bind_eq_bind, bind_some, if_pos trivial]
  cases ring.deliver handler available rounds (p + 1) (p + 1 + 1) <;> rfl

theorem deliver_no_entry {rounds : Nat} (hnone : ring.at? (p + 1) = none) :
    ring.deliver handler available (rounds + 1) p (p + 1) = none := by
  rw [deliver, hnone]
  rfl

/-- The last round of a delivery that stops before `available`. -/
theorem deliver_stopsAt {rounds : Nat} (hlt : p + 1 < available)
    (hmax : available < 2 ^ 63 - 1) (hp : -1 ≤ p) (hstop : StopsAt ring handler (p + 1)) :
    ring.deliver handler available (rounds + 1) p (p + 1) = (ring.at? (p + 1)).map fun event =>
        ⟨[⟨event, p + 1, false, handler event (p + 1) false⟩],
          if handler event (p + 1) false = .threw then p else p + 1,
          decide (handler event (p + 1) false = .threw)⟩ := by
  have hnot : (p + 1 == available) = false := beq_eq_false_iff_ne.mpr hlt.ne
  obtain ⟨event, hevent, hstop⟩ := hstop
  rw [deliver, hevent, bind_eq_bind, bind_some]
  simp only [hnot]
  cases hres : handler event (p + 1) false with
  | threw => simp [hres]
  | returned processNextEvent =>
    cases processNextEvent with
    | true => exact absurd hres hstop
    | false => simp [hres, int64_of_lt (show -1 ≤ p + 1 + 1 by omega) (by omega)]

/-- A delivery that ends before `v` does not depend on how far it could go. -/
theorem deliver_congr (hp : -1 ≤ p) (hcur : v < cursor) (hmax : cursor < 2 ^ 63 - 1)
    (hstops : StopsBefore ring handler p v) :
    ring.deliver handler cursor (cursor - p).toNat p (p + 1) =
      ring.deliver handler v (v - p).toNat p (p + 1) := by
  obtain ⟨x, hx, hgoes, hend⟩ := hstops
  obtain ⟨k, hk⟩ := eq_ofNat_of_zero_le (show 0 ≤ x - (p + 1) by omega)
  induction k generalizing p with
  | zero =>
    obtain rfl : x = p + 1 := by omega
    have hrnds : (cursor - p).toNat = (cursor - (p + 1)).toNat + 1 := by omega
    have hrnds' : (v - p).toNat = (v - (p + 1)).toNat + 1 := by omega
    rw [hrnds, hrnds']
    rcases hend with ⟨-, hnone⟩ | ⟨hlt, hstop⟩
    · rw [deliver_no_entry hnone, deliver_no_entry hnone]
    · rw [deliver_stopsAt (by omega) hmax hp hstop, deliver_stopsAt hlt (by omega) hp hstop]
  | succ k ih =>
    have hrnds : (cursor - p).toNat = (cursor - (p + 1)).toNat + 1 := by omega
    have hrnds' : (v - p).toNat = (v - (p + 1)).toNat + 1 := by omega
    have hgo := hgoes (p + 1) (by omega) (by omega)
    obtain ⟨_, hevent, hdeliver⟩ := deliver_goesOn cursor (cursor - (p + 1)).toNat hgo (by omega) hmax hp
    obtain ⟨_, hevent', hdeliver'⟩ := deliver_goesOn v (v - (p + 1)).toNat hgo (by omega) (by omega) hp
    obtain rfl := Option.some.inj (hevent.symm.trans hevent')
    rw [hrnds, hrnds', hdeliver, hdeliver',
      ih (by omega) (by omega) (fun y hy hyx => hgoes y (by omega) hyx) (by omega)]

/-- Otherwise it goes on to `v`, which has an entry. -/
theorem goesOn_of_not_stopsBefore (hno : ¬ StopsBefore ring handler p v) (hpv : p < v) :
    (∀ x, p < x → x < v → GoesOn ring handler x) ∧ (ring.at? v).isSome := by
  have hgoes : ∀ k : Nat, p + 1 + k < v → GoesOn ring handler (p + 1 + k) := by
    intro k
    induction k using Nat.strong_induction_on with
    | h k ih =>
      intro hk
      have hbef : ∀ y, p < y → y < p + 1 + k → GoesOn ring handler y := by
        intro y hy hyk
        obtain ⟨j, hj⟩ := eq_ofNat_of_zero_le (show 0 ≤ y - (p + 1) by omega)
        obtain rfl : y = p + 1 + j := by omega
        exact ih j (by omega) (by omega)
      cases hent : ring.at? (p + 1 + k) with
      | none => exact absurd ⟨_, by omega, hbef, Or.inl ⟨hk.le, hent⟩⟩ hno
      | some event =>
        by_cases hret : handler event (p + 1 + k) false = .returned true
        · exact ⟨event, hent, hret⟩
        · exact absurd ⟨_, by omega, hbef, Or.inr ⟨hk, event, hent, hret⟩⟩ hno
  have hall : ∀ x, p < x → x < v → GoesOn ring handler x := by
    intro x hx hxv
    obtain ⟨k, hk⟩ := eq_ofNat_of_zero_le (show 0 ≤ x - (p + 1) by omega)
    obtain rfl : x = p + 1 + k := by omega
    exact hgoes k hxv
  refine ⟨hall, ?_⟩
  cases hent : ring.at? v with
  | none => exact absurd ⟨v, hpv, hall, Or.inl ⟨le_rfl, hent⟩⟩ hno
  | some event => rfl

theorem deliver_reaches (hp : -1 ≤ p) (hpv : p < v) (hcur : v < cursor)
    (hmax : cursor < 2 ^ 63 - 1) (hgoes : ∀ x, p < x → x < v → GoesOn ring handler x)
    {d : Delivery T} (hd : ring.deliver handler cursor (cursor - p).toNat p (p + 1) = some d) :
    ∃ o ∈ d.offers, o.sequence = v := by
  obtain ⟨k, hk⟩ := eq_ofNat_of_zero_le (show 0 ≤ v - (p + 1) by omega)
  have hrnds : (cursor - p).toNat = (cursor - (p + 1)).toNat + 1 := by omega
  induction k generalizing p d with
  | zero =>
    obtain rfl : v = p + 1 := by omega
    have hdelivered := deliver_spec (by omega) hd
    obtain ⟨o, rest, hoffers, ho⟩ : ∃ o rest, d.offers = o :: rest ∧ o.sequence = p + 1 := by
      have hpolled : Polled p cursor ⟨d.processedSequence, cursor⟩ d.offers :=
        ⟨rfl, ⟨d, hdelivered, rfl, rfl⟩, fun _ => by
          rw [hrnds] at hd
          exact deliver_ne_nil hd⟩
      exact hpolled.head (by omega)
    exact ⟨o, hoffers ▸ List.mem_cons_self, ho⟩
  | succ k ih =>
    obtain ⟨_, -, hdeliver⟩ := deliver_goesOn cursor (cursor - (p + 1)).toNat (hgoes (p + 1) (by omega) (by omega)) (by omega) hmax hp
    rw [hrnds, hdeliver] at hd
    obtain ⟨_, hd', rfl⟩ := map_eq_some_iff.mp hd
    obtain ⟨o, ho, hseq⟩ := ih (by omega) (by omega)
      (fun x hx hxv => hgoes x (by omega) hxv) hd' (by omega) (by omega)
    exact ⟨o, List.mem_cons_of_mem _ ho, hseq⟩

theorem at?_congr {σ' : Type} {ring' : RingBuffer T σ' c} (h : ring'.entries = ring.entries)
    (x : Int) : ring'.at? x = ring.at? x := by
  rw [RingBuffer.at?, RingBuffer.at?, h]

theorem deliver_entries {σ' : Type} {ring' : RingBuffer T σ' c} (h : ring'.entries = ring.entries)
    (handler : Handler T) (available : Int) : ∀ (rounds : Nat) (processed next : Int),
    ring'.deliver handler available rounds processed next =
      ring.deliver handler available rounds processed next
  | 0, _, _ => rfl
  | rounds + 1, processed, next => by
    rw [deliver, deliver, at?_congr h]
    simp only [deliver_entries h handler available rounds]

/-- What a poll did, but for how far it could have read. -/
def outcome (r : EventPoller × List (Offer T) × Except HandlerException PollState) :
    Int × List (Offer T) × Except HandlerException PollState := (r.1.sequence, r.2)

theorem process_entries {σ' : Type} {ring' : RingBuffer T σ' c} (h : ring'.entries = ring.entries)
    (handler : Handler T) : process ring' cursor p v handler = process ring cursor p v handler := by
  unfold process
  simp only [deliver_entries h]

theorem process_of_lt (hlt : p < available) (handler : Handler T) :
    process ring cursor p available handler =
      (ring.deliver handler available (available - p).toNat p (p + 1)).map fun d =>
        (⟨d.processedSequence, available⟩, d.offers,
          if d.threw then .error .rethrown else .ok .processing) := by
  unfold process
  rw [if_pos (by omega)]
  cases ring.deliver handler available (available - p).toNat p (p + 1) <;> rfl

theorem StopsBefore.lt (h : StopsBefore ring handler p v) : p < v := by
  obtain ⟨x, hx, -, ⟨hle, -⟩ | ⟨hlt, -⟩⟩ := h
  · omega
  · omega

theorem process_congr (hp : -1 ≤ p) (hcur : v < cursor) (hmax : cursor < 2 ^ 63 - 1)
    (hstops : StopsBefore ring handler p v) : (process ring cursor p cursor handler).map outcome =
      (process ring cursor p v handler).map outcome := by
  have hlt := hstops.lt
  rw [process_of_lt (by omega), process_of_lt hlt, deliver_congr hp hcur hmax hstops,
    map_map, map_map]
  rfl

/-- Polls that may read up to `cursor` and only up to `v` answer alike only if
they stop before `v`. -/
theorem stopsBefore_of_process_eq (hp : -1 ≤ p) (hpv : p ≤ v) (hcur : v < cursor)
    (hmax : cursor < 2 ^ 63 - 1) (heq : (process ring cursor p cursor handler).map Prod.snd =
      (process ring cursor p v handler).map Prod.snd) : StopsBefore ring handler p v := by
  by_contra hno
  rw [process_of_lt (by omega)] at heq
  rcases eq_or_lt_of_le hpv with rfl | hlt
  · -- nothing to read for the second, which says so
    have hgating : process ring cursor p p handler = some (⟨p, p⟩, [], .ok .gating) := by
      unfold process
      rw [if_neg (by omega), if_pos (by omega)]
      rfl
    rw [hgating, map_map] at heq
    obtain ⟨d, hd, hsame⟩ := map_eq_some_iff.mp heq
    have hrnds : (cursor - p).toNat = (cursor - (p + 1)).toNat + 1 := by omega
    rw [hrnds] at hd
    exact deliver_ne_nil hd (Prod.mk.inj hsame).1
  · obtain ⟨hgoes, hent⟩ := goesOn_of_not_stopsBefore hno hlt
    have hdef : (ring.deliver handler v (v - p).toNat p (p + 1)).isSome := by
      refine deliver_isSome fun x hx hxv => ⟨?_, ?_⟩
      · rcases eq_or_lt_of_le (show x ≤ v by omega) with rfl | hxv
        · exact hent
        · obtain ⟨event, hevent, -⟩ := hgoes x (by omega) hxv
          rw [hevent]
          rfl
      · rw [int64_of_lt (by omega) (by omega)]
        rfl
    obtain ⟨d', hd'⟩ := isSome_iff_exists.mp hdef
    rw [process_of_lt hlt, hd', map_map] at heq
    obtain ⟨d, hd, hsame⟩ := map_eq_some_iff.mp heq
    have hoffers : d.offers = d'.offers := (Prod.mk.inj hsame).1
    -- the event at `v` ends the batch of the second poll only
    obtain ⟨o, ho, hseq⟩ := deliver_reaches hp hlt hcur hmax hgoes hd
    have hfirst := deliver_endOfBatch hd o ho
    have hsecond := deliver_endOfBatch hd' o (hoffers ▸ ho)
    rw [hfirst, hseq, beq_self_eq_true, beq_iff_eq] at hsecond
    omega

end Polls

theorem Frontier.unique {published : Int → Prop} {p cursor v v' : Int}
    (h : Frontier published p cursor v) (h' : Frontier published p cursor v') : v = v' := by
  have hv := h.lower
  have hv' := h'.lower
  rcases lt_trichotomy v v' with hlt | heq | hgt
  · exact absurd (h'.below (v + 1) (by omega) (by omega)) (h.stops (hlt.trans_le h'.upper))
  · exact heq
  · exact absurd (h.below (v' + 1) (by omega) (by omega)) (h'.stops (hgt.trans_le h.upper))

/-! ## The rings side by side -/

/-- How far the marks can be trusted. -/
def topOf (c : Size) : Int := if c.indexShift ≤ 31 then 2 ^ 63 - 1 else 2 ^ 31

theorem addressing_topOf (c : Size) : Addressing c (topOf c) := by
  unfold topOf
  split_ifs with h
  · exact (addressing_of_shift_le h).mono (by decide)
  · exact addressing_of_le_shift (by omega)

theorem topOf_le (c : Size) : topOf c ≤ 2 ^ 63 - 1 := by
  unfold topOf
  split_ifs <;> decide

structure Alike (s : Lane T SingleThreadedStrategy c) (m : Lane T (MultiThreadedStrategy c) c)
    (returned : List Int) : Prop where
  entries_eq : m.ring.entries = s.ring.entries
  same : SameClaims s.ring.strategy m.ring.strategy
  cursor_eq : s.ring.strategy.cursor = s.ring.strategy.nextValue
  poller_eq : m.poller.sequence = s.poller.sequence
  poller_ge : -1 ≤ s.poller.sequence
  poller_le : s.poller.sequence ≤ s.ring.strategy.nextValue
  window : s.ring.strategy.nextValue ≤ s.poller.sequence + c.size
  bounded : s.ring.strategy.nextValue < topOf c
  cache_le : s.ring.strategy.cachedValue ≤ s.poller.sequence
  returned_le : ∀ x ∈ returned, x ≤ s.ring.strategy.nextValue
  marks : Marks m.ring.strategy (topOf c) s.poller.sequence (· ∈ returned)
  single_last_ge : -1 ≤ s.poller.lastAvailableSequence
  last_ge : -1 ≤ m.poller.lastAvailableSequence
  last_le : m.poller.lastAvailableSequence ≤ s.ring.strategy.nextValue
  last_returned : ∀ x, s.poller.sequence < x → x ≤ m.poller.lastAvailableSequence → x ∈ returned

def withStrategy (s : Lane T σ c) (strategy : σ) : Lane T σ c :=
  { s with ring := { s.ring with strategy } }

section Steps

variable {s : Lane T SingleThreadedStrategy c} {m : Lane T (MultiThreadedStrategy c) c}
  {returned : List Int} {op : Op T}

theorem alike_start (entries : Vector T (c.size + 2 * rbPad)) :
    Alike (start (strategy c) entries)
      (start (MultiThreadedStrategy.strategy c) entries) [] where
  entries_eq := rfl
  same := ⟨rfl, rfl⟩
  cursor_eq := rfl
  poller_eq := rfl
  poller_ge := le_rfl
  poller_le := le_rfl
  window := by
    change (-1 : Int) ≤ -1 + c.size
    omega
  bounded := by
    change (-1 : Int) < topOf c
    unfold topOf
    split_ifs <;> decide
  cache_le := le_rfl
  returned_le := nofun
  marks := by
    change Marks ({} : MultiThreadedStrategy c) (topOf c) (-1) fun x => x ∈ []
    simpa only [List.not_mem_nil] using marks_init (addressing_topOf c)
  single_last_ge := le_rfl
  last_ge := le_rfl
  last_le := le_rfl
  last_returned x hx hle := by
    change -1 < x at hx
    change x ≤ -1 at hle
    omega

variable {m₁ : MultiThreadedStrategy c} {s₁ : SingleThreadedStrategy}

variable (h : Alike s m returned)
include h

/-- A claim and the `publish` after it. -/
theorem Alike.publish {n r : Int} (hn : 1 ≤ n) (hsame : SameClaims s₁ m₁)
    (hgrant : Granted c [s.poller.sequence] s.ring.strategy.nextValue s.ring.strategy.cachedValue
      n r s₁.nextValue s₁.cachedValue)
    (hbuffer : m₁.availableBuffer = m.ring.strategy.availableBuffer) (hr : r < topOf c) :
    ∃ m₂, MultiThreadedStrategy.publish m₁ r = some m₂ ∧
      Alike (s.withStrategy (s₁.publish r)) (m.withStrategy m₂) (r :: returned) := by
  have hcache := hgrant.cache_le (List.mem_singleton_self _) h.cache_le
  have hge := h.poller_ge
  have hle := h.poller_le
  have hfollows := hgrant.follows
  have hclaims := hgrant.claims
  have hroom := hgrant.room
  obtain ⟨m₂, hpub, hcur, hcache₂, hmarks⟩ :=
    (h.marks.congr hbuffer).publish (addressing_topOf c) hge (by omega)
      (by omega) hr
  refine ⟨m₂, hpub, ?_⟩
  exact { h with
    same := ⟨hcur.trans hsame.claimed, hcache₂.trans hsame.cache⟩
    cursor_eq := hclaims.symm
    poller_le := by
      change s.poller.sequence ≤ s₁.nextValue
      omega
    window := by
      change s₁.nextValue ≤ s.poller.sequence + c.size
      omega
    bounded := hclaims.trans_lt hr
    cache_le := hcache
    returned_le := by
      intro x hx
      change x ≤ s₁.nextValue
      rcases List.mem_cons.mp hx with rfl | hold
      · exact hclaims.ge
      · have hx := h.returned_le x hold
        omega
    marks := by
      change Marks m₂ (topOf c) s.poller.sequence (· ∈ r :: returned)
      simpa only [List.mem_cons] using hmarks
    last_le := by
      have hlast := h.last_le
      change m.poller.lastAvailableSequence ≤ s₁.nextValue
      omega
    last_returned := fun x hx hlast => List.mem_cons_of_mem _ (h.last_returned x hx hlast) }

omit h in
/-- From `2 ^ 31` on the index of a mark in a larger buffer is negative. -/
theorem publish_undefined (hshift : 32 ≤ c.indexShift) {r : Int} (hr : 2 ^ 31 ≤ r)
    (hr' : r < 2 ^ 32) (m : MultiThreadedStrategy c) : MultiThreadedStrategy.publish m r = none := by
  refine dif_neg (not_lt.mpr ?_)
  obtain ⟨n, rfl⟩ := eq_ofNat_of_zero_le (show 0 ≤ r by omega)
  have hmasked : (BitVec.ofInt 32 (n : Int) &&& c.indexMask).toNat = n := by
    rw [toNat_masked, min_eq_right hshift, Nat.mod_eq_of_lt (by omega)]
  have hsize : c.size ≤ 2 ^ 63 := size_le_of_shift_le c.fits.le
  exact hsize.trans (le_toNat_signExtend (by omega))

theorem Alike.frontier : ∃ v, Frontier (· ∈ returned) s.poller.sequence s.ring.strategy.cursor v ∧
      ∀ handler : Handler T,
        poll (MultiThreadedStrategy.strategy c) m.ring m.poller handler =
          process s.ring s.ring.strategy.cursor s.poller.sequence v handler := by
  have hcur : m.ring.strategy.cursor = s.ring.strategy.cursor := h.same.claimed.trans h.cursor_eq.symm
  have hbounded := h.bounded
  have htop := topOf_le c
  have hclaimed := h.cursor_eq
  have hle := h.poller_le
  have hwindow := h.window
  have hlast := h.last_le
  obtain ⟨v, hv, hfr⟩ := getHighestPublishedSequence_spec h.poller_ge h.marks (by omega)
    (by omega) htop (by omega) (by omega) h.last_returned
  rw [hcur] at hfr
  refine ⟨v, hfr, fun handler => ?_⟩
  rw [← h.poller_eq] at hv
  have hge := h.poller_ge
  have hpoller := h.poller_eq
  have heq : poll (MultiThreadedStrategy.strategy c) m.ring m.poller handler =
      process m.ring m.ring.strategy.cursor m.poller.sequence v handler :=
    Disruptor.poll_eq (by omega) h.last_ge
      (show m.poller.sequence ≤ m.ring.strategy.cursor by omega)
      (show m.ring.strategy.cursor < 2 ^ 63 - 1 by omega) hv
  rw [heq, process_entries h.entries_eq, hpoller, hcur]

theorem Alike.poll_single (handler : Handler T) :
    poll (strategy c) s.ring s.poller handler =
      process s.ring s.ring.strategy.cursor s.poller.sequence s.ring.strategy.cursor handler := by
  have hclaimed := h.cursor_eq
  have hle := h.poller_le
  have hbounded := h.bounded
  have htop := topOf_le c
  exact Disruptor.poll_eq h.poller_ge h.single_last_ge
    (show s.poller.sequence ≤ s.ring.strategy.cursor by omega)
    (show s.ring.strategy.cursor < 2 ^ 63 - 1 by omega) rfl

/-- A poll that is seen alike leaves the pollers alike. -/
theorem Alike.polled {v : Int} {handler : Handler T}
    {poller poller' : EventPoller} {offers offers' : List (Offer T)}
    {result result' : Except HandlerException PollState}
    (hfr : Frontier (· ∈ returned) s.poller.sequence s.ring.strategy.cursor v)
    (hs : process s.ring s.ring.strategy.cursor s.poller.sequence
      s.ring.strategy.cursor handler = some (poller, offers, result))
    (hm : process s.ring s.ring.strategy.cursor s.poller.sequence v handler =
      some (poller', offers', result')) (hseq : poller'.sequence = poller.sequence) :
    Alike { s with poller } { m with poller := poller' } returned := by
  have hclaimed := h.cursor_eq
  have hlower := hfr.lower
  have hupper := hfr.upper
  have hge := h.poller_ge
  have hwindow := h.window
  obtain ⟨hlast, ⟨d, ⟨-, -⟩, -⟩, -⟩ := process_spec (by omega) hs
  obtain ⟨hlast', ⟨_, ⟨hproc, _, -, -, hcnt, -⟩, hd', -⟩, -⟩ := process_spec hlower hm
  have hreached : s.poller.sequence ≤ poller.sequence ∧ poller.sequence ≤ v := by omega
  exact { h with
    poller_eq := hseq
    poller_ge := hge.trans hreached.1
    poller_le := by
      change poller.sequence ≤ s.ring.strategy.nextValue
      omega
    window := by
      change s.ring.strategy.nextValue ≤ poller.sequence + c.size
      omega
    cache_le := h.cache_le.trans hreached.1
    marks := by
      change Marks m.ring.strategy (topOf c) poller.sequence (· ∈ returned)
      refine h.marks.advance (addressing_topOf c) hge hreached.1 (by omega) (fun x hx hxp => ?_)
        fun x hx hmem => ?_
      · exact hfr.below x hx (by omega)
      · have hx' := h.returned_le x hmem
        omega
    single_last_ge := by
      change -1 ≤ poller.lastAvailableSequence
      omega
    last_ge := by
      change -1 ≤ poller'.lastAvailableSequence
      omega
    last_le := by
      change poller'.lastAvailableSequence ≤ s.ring.strategy.nextValue
      omega
    last_returned := by
      intro x hx hxl
      change poller.sequence < x at hx
      change x ≤ poller'.lastAvailableSequence at hxl
      exact hfr.below x (by omega) (by omega) }

omit h

/-- What two steps give that are to be the same. -/
def Same (s : Lane T SingleThreadedStrategy c) (m : Lane T (MultiThreadedStrategy c) c)
    (returned : List Int) (op : Op T) : Prop :=
  (step (strategy c) s op = none ∧
      step (MultiThreadedStrategy.strategy c) m op = none) ∨
    ∃ s' m' answer, step (strategy c) s op = some (s', answer) ∧
      step (MultiThreadedStrategy.strategy c) m op = some (m', answer) ∧
      Alike s' m' (answer.returned ++ returned) ∧
      s'.ring.strategy.nextValue ≤ s.ring.strategy.nextValue + op.slots

variable (S : ClaimStrategy σ)

/-- The answer, if there is one. -/
def answer? (s : Lane T σ c) (op : Op T) : Option (Answer T) :=
  (step S s op).map Prod.snd

/-- What there is to show of a step: the rings stay alike if it is agreeable,
and else they answer differently. -/
def Decided (s : Lane T SingleThreadedStrategy c) (m : Lane T (MultiThreadedStrategy c) c)
    (returned : List Int) (op : Op T) : Prop :=
  (Agreeable s returned op → Same s m returned op) ∧
    (¬ Agreeable s returned op → answer? (strategy c) s op ≠
      answer? (MultiThreadedStrategy.strategy c) m op)

theorem answers_head? (s : Lane T σ c) (op : Op T) (ops : List (Op T)) :
    (answers S s (op :: ops)).head? = some (answer? S s op) := by
  rw [answers, answer?]
  cases step S s op <;> rfl

theorem answer?_poll (s : Lane T σ c) (handler : Handler T) :
    answer? S s (.poll handler) =
      ((poll S s.ring s.poller handler).map Prod.snd).map fun r =>
        .polled r.1 r.2 := by
  unfold answer? step
  dsimp only
  cases poll S s.ring s.poller handler <;> rfl

theorem polled_injective :
    Function.Injective fun r : List (Offer T) × Except HandlerException PollState =>
      Answer.polled r.1 r.2 := by
  rintro ⟨_, _⟩ ⟨_, _⟩ h
  obtain ⟨rfl, rfl⟩ := Answer.polled.inj h
  rfl

include h

theorem Alike.poll (handler : Handler T) : Decided s m returned (.poll handler) := by
  obtain ⟨v, hfr, hmulti⟩ := h.frontier
  have hsingle := h.poll_single handler
  have hge := h.poller_ge
  have hclaimed := h.cursor_eq
  have hbounded := h.bounded
  have htop := topOf_le c
  have hupper := hfr.upper
  have hiff : Agreeable s returned (.poll handler) ↔
      v = s.ring.strategy.cursor ∨ StopsBefore s.ring handler s.poller.sequence v :=
    ⟨fun hall => hall v hfr, fun hv v' hv' => (Frontier.unique hfr hv') ▸ hv⟩
  constructor
  · intro hagree
    have hsame : (process s.ring s.ring.strategy.cursor s.poller.sequence
          s.ring.strategy.cursor handler).map outcome =
        (process s.ring s.ring.strategy.cursor s.poller.sequence v handler).map
          outcome := by
      rcases hiff.mp hagree with heq | hstops
      · rw [heq]
      · rcases eq_or_lt_of_le hupper with heq | hlt
        · rw [heq]
        · exact process_congr hge hlt (by omega) hstops
    cases hs : process s.ring s.ring.strategy.cursor s.poller.sequence
        s.ring.strategy.cursor handler with
    | none =>
      rw [hs, map_none, eq_comm, map_eq_none_iff] at hsame
      refine Or.inl ⟨?_, ?_⟩
      · simp only [step, hsingle, hs]
        rfl
      · simp only [step, hmulti, hsame]
        rfl
    | some r =>
      obtain ⟨_, _, _⟩ := r
      rw [hs, map_some, eq_comm] at hsame
      obtain ⟨⟨_, offers', result'⟩, hm, heq⟩ := map_eq_some_iff.mp hsame
      obtain ⟨hseq, heq⟩ := Prod.mk.inj heq
      obtain ⟨rfl, rfl⟩ := Prod.mk.inj heq
      refine Or.inr ⟨_, _, .polled offers' result', ?_, ?_, h.polled hfr hs hm hseq, ?_⟩
      · simp only [step, hsingle, hs]
        rfl
      · simp only [step, hmulti, hm]
        rfl
      · exact (add_zero _).ge
  · intro hno hsame
    rw [hiff, not_or] at hno
    have hlt := lt_of_le_of_ne hupper hno.1
    refine hno.2 (stopsBefore_of_process_eq hge hfr.lower hlt (by omega) ?_)
    rw [answer?_poll, answer?_poll, hsingle, hmulti] at hsame
    exact map_injective polled_injective hsame

variable (hop : ∀ handler, op ≠ .poll handler)
include hop

omit h in
theorem agreeable_claimed_iff {s' : Lane T SingleThreadedStrategy c} {r : Int}
    (hs : step (strategy c) s op = some (s', .claimed r)) :
    Agreeable s returned op ↔ c.indexShift ≤ 31 ∨ r < 2 ^ 31 := by
  have hall : Agreeable s returned op ↔ ∀ s' r,
      step (strategy c) s op = some (s', .claimed r) →
        c.indexShift ≤ 31 ∨ r < 2 ^ 31 := by
    cases op with
    | next | tryNext => exact Iff.rfl
    | poll handler => exact absurd rfl (hop handler)
  rw [hall]
  refine ⟨fun h => h s' r hs, fun hfits s'' r' hstep => ?_⟩
  rw [hs] at hstep
  obtain ⟨-, heq⟩ := Prod.mk.inj (Option.some.inj hstep)
  obtain rfl := Answer.claimed.inj heq
  exact hfits

omit h in
/-- A claim that is not granted is agreeable. -/
theorem decided_of_not_claimed
    (hs : ∀ s' r, step (strategy c) s op ≠ some (s', .claimed r))
    (h : Same s m returned op) : Decided s m returned op := by
  refine ⟨fun _ => h, fun hno => absurd ?_ hno⟩
  cases op with
  | next | tryNext => exact fun s' r hstep => absurd hstep (hs s' r)
  | poll handler => exact absurd rfl (hop handler)

/-- After a claim of both strategies: if the mark can be set the rings stay
alike, and else the multi-threaded one does not return. -/
theorem Alike.claim {n r : Int} (hn : 1 ≤ n ∧ n < c.size ∧ n < 2 ^ 31)
    (hsmall : s.ring.strategy.nextValue + n < 2 ^ 63 - 1) (hsame : SameClaims s₁ m₁)
    (hgrant : Granted c [s.poller.sequence] s.ring.strategy.nextValue s.ring.strategy.cachedValue
      n r s₁.nextValue s₁.cachedValue)
    (hbuffer : m₁.availableBuffer = m.ring.strategy.availableBuffer)
    (hs : step (strategy c) s op =
      some (s.withStrategy (s₁.publish r), .claimed r))
    (hm : step (MultiThreadedStrategy.strategy c) m op =
      (MultiThreadedStrategy.publish m₁ r).map fun m₂ => (m.withStrategy m₂, .claimed r))
    (hslots : op.slots = n) : Decided s m returned op := by
  have hfollows := hgrant.follows
  have hclaims := hgrant.claims
  rw [Decided, agreeable_claimed_iff hop hs]
  constructor
  · intro hfits
    have hr : r < topOf c := by
      unfold topOf
      split_ifs with hshift
      · omega
      · exact hfits.resolve_left hshift
    obtain ⟨m₂, hpub, halike⟩ := h.publish hn.1 hsame hgrant hbuffer hr
    rw [hpub, map_some] at hm
    refine Or.inr ⟨_, _, _, hs, hm, halike, ?_⟩
    change s₁.nextValue ≤ _
    omega
  · intro hno
    rw [not_or, not_le, not_lt] at hno
    have hbounded := h.bounded
    rw [topOf, if_neg (by omega)] at hbounded
    rw [answer?, answer?, hs, hm, publish_undefined (by omega) hno.2 (by omega)]
    exact nofun

omit hop

omit h in
theorem step_next (s : Lane T σ c) (n : Int) :
    step S s (.next n) = (S.next s.ring.strategy [s.poller.sequence] n).bind fun claim =>
      (S.publish claim.2 claim.1).map fun strategy =>
        (s.withStrategy strategy, .claimed claim.1) := by
  change Option.bind (S.next _ _ n) _ = _
  refine congrArg _ (funext fun claim => ?_)
  change Option.bind (S.publish claim.2 claim.1) _ = _
  cases S.publish claim.2 claim.1 <;> rfl

theorem Alike.next {n : Int} (hn : 1 ≤ n ∧ n < c.size ∧ n < 2 ^ 31)
    (hsmall : s.ring.strategy.nextValue + n < 2 ^ 63 - 1) : Decided s m returned (.next n) := by
  have hs' := step_next (strategy c) s n
  have hm' := step_next (MultiThreadedStrategy.strategy c) m n
  rw [h.poller_eq] at hm'
  rcases h.same.next [s.poller.sequence] n with ⟨hs, hm⟩ | ⟨r, _, _, hs, hm, hsame⟩
  · have hnone := hs'.trans (congrArg (Option.bind · _) hs)
    exact decided_of_not_claimed nofun (fun s' r => by rw [hnone]; exact nofun)
      (.inl ⟨hnone, hm'.trans (congrArg (Option.bind · _) hm)⟩)
  · exact h.claim nofun hn hsmall hsame ((claiming c).next hs)
      (MultiThreadedStrategy.next_availableBuffer hm) (hs'.trans (congrArg (Option.bind · _) hs))
      (hm'.trans (congrArg (Option.bind · _) hm)) rfl

/-- A refusal changes the remembered minimum only, of both alike. -/
theorem Alike.refused {n : Int} {e : NoCapacityException} (hsame : SameClaims s₁ m₁)
    (hs : tryNext c s.ring.strategy [s.poller.sequence] n =
      some (.error e, s₁)) (hbuffer : m₁.availableBuffer = m.ring.strategy.availableBuffer) :
    Alike (s.withStrategy s₁) (m.withStrategy m₁) returned := by
  obtain ⟨hclaimed, hcache, -⟩ := (claiming c).noCapacity hs
  have hcur : s₁.cursor = s.ring.strategy.cursor := tryNext_cursor hs
  have hfull : s₁.cachedValue ≤ s.poller.sequence := by
    rw [hcache]
    exact getMinimumSequence_le_of_mem _ (List.mem_singleton_self _)
  exact { h with
    same := hsame
    cursor_eq := hcur.trans (h.cursor_eq.trans hclaimed.symm)
    poller_le := h.poller_le.trans hclaimed.ge
    window := hclaimed.le.trans h.window
    bounded := hclaimed.trans_lt h.bounded
    cache_le := hfull
    returned_le := fun x hx => (h.returned_le x hx).trans hclaimed.ge
    marks := h.marks.congr hbuffer
    last_le := h.last_le.trans hclaimed.ge }

omit h in
theorem step_tryNext (s : Lane T σ c) (n : Int) :
    step S s (.tryNext n) = (S.tryNext s.ring.strategy [s.poller.sequence] n).bind fun
      | (.ok r, strategy) =>
        (S.publish strategy r).map fun strategy => (s.withStrategy strategy, .claimed r)
      | (.error _, strategy) => some (s.withStrategy strategy, .noCapacity) := by
  change Option.bind (S.tryNext _ _ n) _ = _
  refine congrArg _ (funext fun claim => ?_)
  obtain ⟨_ | r, strategy⟩ := claim
  · rfl
  · change Option.bind (S.publish strategy r) _ = Option.map _ (S.publish strategy r)
    cases S.publish strategy r <;> rfl

theorem Alike.tryNext {n : Int} (hn : 1 ≤ n ∧ n < c.size ∧ n < 2 ^ 31)
    (hsmall : s.ring.strategy.nextValue + n < 2 ^ 63 - 1) : Decided s m returned (.tryNext n) := by
  have hs' := step_tryNext (strategy c) s n
  have hm' := step_tryNext (MultiThreadedStrategy.strategy c) m n
  rw [h.poller_eq] at hm'
  rcases h.same.tryNext [s.poller.sequence] n with ⟨hs, hm⟩ | ⟨_ | r, s₁, _, hs, hm, hsame⟩
  · have hnone := hs'.trans (congrArg (Option.bind · _) hs)
    exact decided_of_not_claimed nofun (fun s' r => by rw [hnone]; exact nofun)
      (.inl ⟨hnone, hm'.trans (congrArg (Option.bind · _) hm)⟩)
  · have hrefused := hs'.trans (congrArg (Option.bind · _) hs)
    have hclaimed : s₁.nextValue = s.ring.strategy.nextValue :=
      ((claiming c).noCapacity hs).1
    refine decided_of_not_claimed nofun (fun s' r => by rw [hrefused]; exact nofun)
      (.inr ⟨_, _, _, hrefused, hm'.trans (congrArg (Option.bind · _) hm), ?_, ?_⟩)
    · exact h.refused hsame hs (MultiThreadedStrategy.tryNext_availableBuffer hm)
    · change s₁.nextValue ≤ s.ring.strategy.nextValue + n
      omega
  · exact h.claim nofun hn hsmall hsame ((claiming c).tryNext hs)
      (MultiThreadedStrategy.tryNext_availableBuffer hm)
      (hs'.trans (congrArg (Option.bind · _) hs)) (hm'.trans (congrArg (Option.bind · _) hm)) rfl

theorem Alike.answer (hop : op.Admissible c)
    (hsmall : s.ring.strategy.nextValue + op.slots < 2 ^ 63 - 1) : Decided s m returned op := by
  cases op with
  | next n => exact h.next hop hsmall
  | tryNext n => exact h.tryNext hop hsmall
  | poll handler => exact h.poll handler

omit h

theorem answers_eq_iff_of_alike : ∀ {ops : List (Op T)} {s : Lane T SingleThreadedStrategy c}
    {m : Lane T (MultiThreadedStrategy c) c} {returned : List Int}, Alike s m returned →
    (∀ op ∈ ops, op.Admissible c) →
    s.ring.strategy.nextValue + (ops.map Op.slots).sum < 2 ^ 63 - 1 →
    (answers (strategy c) s ops =
        answers (MultiThreadedStrategy.strategy c) m ops ↔ AllAgreeable s returned ops)
  | [], _, _, _, _, _, _ => by simp [answers, AllAgreeable]
  | op :: ops, s, m, returned, h, hops, hsmall => by
    rw [List.map_cons, List.sum_cons] at hsmall
    have hrest : 0 ≤ (ops.map Op.slots).sum := by
      refine List.sum_nonneg fun n hn => ?_
      obtain ⟨op', hop', rfl⟩ := List.mem_map.mp hn
      exact (hops op' (List.mem_cons_of_mem _ hop')).slots_nonneg
    obtain ⟨hyes, hno⟩ := h.answer (hops op List.mem_cons_self) (by omega)
    by_cases hagree : Agreeable s returned op
    · rcases hyes hagree with ⟨hs, hm⟩ | ⟨_, _, _, hs, hm, halike, hle⟩
      · simp [answers, AllAgreeable, hs, hm, hagree]
      · have ih := answers_eq_iff_of_alike halike
          (fun op' hop' => hops op' (List.mem_cons_of_mem _ hop')) (by omega)
        simp [answers, AllAgreeable, hs, hm, hagree, ih]
    · have hne := hno hagree
      refine ⟨fun heq => absurd ?_ hne, fun hall => absurd hall.1 hagree⟩
      have hhead := congrArg List.head? heq
      rw [answers_head?, answers_head?] at hhead
      exact Option.some.inj hhead

end Steps

/-- The rings answer alike exactly if all steps are agreeable. Sequence numbers
are to stay in the range of `std::int64_t`. -/
theorem answers_eq_iff (c : Size) (entries : Vector T (c.size + 2 * rbPad)) (ops : List (Op T))
    (hops : ∀ op ∈ ops, op.Admissible c) (hsmall : (ops.map Op.slots).sum < 2 ^ 63) :
    answers (SingleThreadedStrategy.strategy c)
        (start (SingleThreadedStrategy.strategy c) entries) ops =
      answers (MultiThreadedStrategy.strategy c)
        (start (MultiThreadedStrategy.strategy c) entries) ops ↔
      AllAgreeable (start (SingleThreadedStrategy.strategy c) entries) [] ops := by
  refine answers_eq_iff_of_alike (alike_start entries) hops ?_
  change -1 + (ops.map Op.slots).sum < 2 ^ 63 - 1
  omega

def fourEntries : Vector Unit (fourSlots.size + 2 * rbPad) := Vector.replicate _ ()

/-- A claim of one slot and a poll. -/
theorem answers_eq_iff_one : answers (SingleThreadedStrategy.strategy fourSlots)
        (start (SingleThreadedStrategy.strategy fourSlots) fourEntries)
        [.next 1, .poll fun _ _ _ => .returned true] =
      answers (MultiThreadedStrategy.strategy fourSlots)
        (start (MultiThreadedStrategy.strategy fourSlots) fourEntries)
        [.next 1, .poll fun _ _ _ => .returned true] := by
  refine (answers_eq_iff fourSlots fourEntries _ ?_ (by decide)).mpr
    ⟨fun _ _ _ => Or.inl (by decide), ?_⟩
  · intro op hop
    rcases List.mem_cons.mp hop with rfl | hop
    · exact ⟨by decide, by decide, by decide⟩
    · obtain rfl := List.mem_singleton.mp hop
      trivial
  · intro s' answer hstep
    cases hstep
    refine ⟨fun v hv => Or.inl ?_, fun _ _ _ => trivial⟩
    have hlower : -1 ≤ v := hv.lower
    have hupper : v ≤ 0 := hv.upper
    change v = 0
    by_contra hne
    obtain rfl : v = -1 := by omega
    exact hv.stops (by decide) (List.mem_singleton_self 0)

/-- A claim of two slots: the multi-threaded ring does not deliver it. -/
theorem answers_ne_of_two : answers (SingleThreadedStrategy.strategy fourSlots)
        (start (SingleThreadedStrategy.strategy fourSlots) fourEntries)
        [.next 2, .poll fun _ _ _ => .returned true] ≠
      answers (MultiThreadedStrategy.strategy fourSlots)
        (start (MultiThreadedStrategy.strategy fourSlots) fourEntries)
        [.next 2, .poll fun _ _ _ => .returned true] := by
  intro heq
  have hcounts := congrArg (List.map (Option.map fun
    | .polled offers _ => offers.length
    | _ => 0)) heq
  revert hcounts
  decide +kernel

end Lane

end OpenCmw.Disruptor
