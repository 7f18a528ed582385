import OpenCmw.Machine
import OpenCmw.RingBuffer

/-!
# Delivery from a ring with many producers

A multi-producer ring whose one gating sequence is that of its poller:
producers claim a slot each and publish in any order, the poller offers what
is published to a handler that may ask to stop or throw. A run keeps

- the window: the poller is at most a lap behind the claims,
- the marks of what is ahead of the poller (`Marks`),
- what the poller remembers to be available, which is published, and
- what the handler returned from: 0, 1, 2, … up to the poller's sequence.

So the handler sees every event once and in order as long as the entries can
be addressed, which is the case up to `2 ^ 30` slots. With more, the entry of
sequence `2 ^ 31 - 16` has an index that does not fit `std::int32_t`.
-/

namespace OpenCmw.Disruptor

open Option (bind_eq_some_iff)
open MultiThreadedStrategy
open RingBuffer (at?_isSome deliver)
open EventPoller (process)

variable {T : Type} {c : Size}

structure Pipeline (T : Type) (c : Size) where
  ring : RingBuffer T (MultiThreadedStrategy c) c
  poller : EventPoller := {}
  /-- What the producers have published so far. -/
  published : List Int := []

namespace Pipeline

inductive Call (T : Type) where
  | next
  | tryNext
  | publish (sequence : Int)
  | poll (handler : Handler T)

inductive Output (T : Type) where
  | claimed (sequence : Int)
  | noCapacity
  | offered (offer : Offer T)

variable (s : Pipeline T c)

def cursor : Int := s.ring.strategy.cursor

def withStrategy (strategy : MultiThreadedStrategy c) : Pipeline T c :=
  { s with ring := { s.ring with strategy } }

def step : StepFn (Pipeline T c) (Call T) (Output T)
  | s, .next => do
    let (r, strategy) ← MultiThreadedStrategy.next s.ring.strategy [s.poller.sequence] 1
    return (s.withStrategy strategy, [.claimed r])
  | s, .tryNext => do
    match ← MultiThreadedStrategy.tryNext s.ring.strategy [s.poller.sequence] 1 with
    | (.ok r, strategy) => return (s.withStrategy strategy, [.claimed r])
    | (.error .noCapacity, strategy) => return (s.withStrategy strategy, [.noCapacity])
  | s, .publish sequence => do
    let strategy ← publish s.ring.strategy sequence
    return ({ s.withStrategy strategy with published := sequence :: s.published }, [])
  | s, .poll handler => do
    let (poller, offers, _) ← EventPoller.poll (strategy c) s.ring s.poller handler
    return ({ s with poller }, offers.map .offered)

/-- Sequence numbers stay below `2 ^ 31 * SIZE`, and what is published was
claimed and is not published yet. -/
def Allowed : Call T → Prop
  | .next | .tryNext => s.cursor + 1 < 2 ^ 31 * c.size
  | .publish sequence => 0 ≤ sequence ∧ sequence ≤ s.cursor ∧ sequence ∉ s.published
  | .poll _ => True

/-- A new ring, the poller's sequence being its gating sequence. -/
def start (entries : Vector T (c.size + 2 * rbPad)) : Pipeline T c where
  ring := { entries, strategy := {} }

variable (trace : List (Call T × List (Output T)))

def offers : List (Offer T) :=
  trace.flatMap fun e => e.2.filterMap fun
    | .offered o => some o
    | _ => none

/-- The sequences the handler returned from. -/
def handled : List Int :=
  ((offers trace).filter fun o => o.result != .threw).map Offer.sequence

def Call.isPoll : Call T → Bool
  | poll _ => true
  | _ => false

/-- Exactly-once delivery in order from rings of size `c`. -/
structure DeliversOnce (c : Size) : Prop where
  /-- What was handled is 0, 1, 2, … up to the poller's sequence. -/
  in_order {T : Type} {entries : Vector T (c.size + 2 * rbPad)}
    {trace : List (Call T × List (Output T))} {s : Pipeline T c}
    (h : Run step Allowed (start entries) trace s) :
    -1 ≤ s.poller.sequence ∧ handled trace = sequences 0 (s.poller.sequence + 1).toNat
  published_first {T : Type} {entries : Vector T (c.size + 2 * rbPad)}
    {trace : List (Call T × List (Output T))} {s s' : Pipeline T c} {call : Call T}
    {out : List (Output T)} (h : Run step Allowed (start entries) trace s)
    (hok : Allowed s call) (hstep : step s call = some (s', out)) :
    ∀ o, .offered o ∈ out → o.sequence ∈ s.published
  /-- After the handler threw, the next poll starts with the same sequence. -/
  offered_again {T : Type} {entries : Vector T (c.size + 2 * rbPad)}
    {trace trace' : List (Call T × List (Output T))} {s s₁ s₂ s' : Pipeline T c}
    {handler handler' : Handler T} {out out' : List (Output T)} {o : Offer T}
    (h : Run step Allowed (start entries) trace s)
    (hthrew : step s (.poll handler) = some (s₁, out)) (ho : .offered o ∈ out)
    (hresult : o.result = .threw) (hbetween : Run step Allowed s₁ trace' s₂)
    (hnopoll : ∀ e ∈ trace', e.1.isPoll = false)
    (hstep : step s₂ (.poll handler') = some (s', out')) :
    ∃ o' rest, out' = .offered o' :: rest ∧ o'.sequence = o.sequence
  /-- Only a claim by `next` in a full ring does not return. -/
  defined {T : Type} {entries : Vector T (c.size + 2 * rbPad)}
    {trace : List (Call T × List (Output T))} {s : Pipeline T c} {call : Call T}
    (h : Run step Allowed (start entries) trace s) (hok : Allowed s call)
    (hnone : step s call = none) :
    call = .next ∧ s.poller.sequence < s.cursor + 1 - c.size

/-! ## What a run keeps -/

theorem handled_snoc (trace : List (Call T × List (Output T))) (call : Call T)
    (out : List (Output T)) :
    handled (trace ++ [(call, out)]) = handled trace ++ handled [(call, out)] := by
  simp [handled, offers]

theorem handled_offers (call : Call T) (os : List (Offer T)) : handled [(call, os.map .offered)] =
      (os.filter fun o => o.result != .threw).map Offer.sequence := by
  simp [handled, offers, List.filterMap_map]

structure Handling (top : Int) (trace : List (Call T × List (Output T))) (s : Pipeline T c) :
    Prop where
  poller_ge : -1 ≤ s.poller.sequence
  poller_le : s.poller.sequence ≤ s.cursor
  window : s.cursor ≤ s.poller.sequence + c.size
  bounded : s.cursor < 2 ^ 31 * c.size
  cache_le : s.ring.strategy.gatingSequenceCache ≤ s.poller.sequence
  published_claimed : ∀ x ∈ s.published, x ≤ s.cursor
  handled_published : ∀ x, 0 ≤ x → x ≤ s.poller.sequence → x ∈ s.published
  marks : Marks s.ring.strategy top s.poller.sequence (· ∈ s.published)
  last_ge : -1 ≤ s.poller.lastAvailableSequence
  last_le : s.poller.lastAvailableSequence ≤ s.cursor
  last_published : ∀ x, s.poller.sequence < x → x ≤ s.poller.lastAvailableSequence → x ∈ s.published
  handled_eq : handled trace = sequences 0 (s.poller.sequence + 1).toNat

section Invariant

variable {top : Int} {trace : List (Call T × List (Output T))} {s s' : Pipeline T c}
  {call : Call T} {out : List (Output T)} {handler : Handler T}

theorem Handling.init (hc : Addressing c top) (entries : Vector T (c.size + 2 * rbPad)) :
    Handling top [] (start entries) where
  poller_ge := le_rfl
  poller_le := le_rfl
  window := by
    change (-1 : Int) ≤ -1 + c.size
    omega
  bounded := by
    change (-1 : Int) < 2 ^ 31 * c.size
    omega
  cache_le := le_rfl
  published_claimed := nofun
  handled_published x h0 hx := by
    change x ≤ -1 at hx
    omega
  marks := by
    change Marks ({} : MultiThreadedStrategy c) top (-1) fun x => x ∈ []
    simpa only [List.not_mem_nil] using marks_init hc
  last_ge := le_rfl
  last_le := le_rfl
  last_published x hx hle := by
    change -1 < x at hx
    change x ≤ -1 at hle
    omega
  handled_eq := rfl

/-- A claim or a refused claim. -/
theorem Handling.claims {strategy : MultiThreadedStrategy c} (h : Handling top trace s)
    (hout : handled [(call, out)] = [])
    (hbuffer : strategy.availableBuffer = s.ring.strategy.availableBuffer)
    (hge : s.cursor ≤ strategy.cursor) (hroom : strategy.cursor ≤ s.poller.sequence + c.size)
    (hbound : strategy.cursor < 2 ^ 31 * c.size)
    (hcache : strategy.gatingSequenceCache ≤ s.poller.sequence) :
    Handling top (trace ++ [(call, out)]) (s.withStrategy strategy) :=
  { h with
    poller_le := h.poller_le.trans hge
    window := hroom
    bounded := hbound
    cache_le := hcache
    published_claimed := fun x hx => (h.published_claimed x hx).trans hge
    marks := h.marks.congr hbuffer
    last_le := h.last_le.trans hge
    handled_eq := by
      rw [handled_snoc, hout, List.append_nil]
      exact h.handled_eq }

theorem Handling.granted {strategy : MultiThreadedStrategy c} {r : Int} (h : Handling top trace s)
    (hout : handled [(call, out)] = []) (hok : s.cursor + 1 < 2 ^ 31 * c.size)
    (hbuffer : strategy.availableBuffer = s.ring.strategy.availableBuffer)
    (hgrant : Granted c [s.poller.sequence] s.cursor s.ring.strategy.gatingSequenceCache 1 r
      strategy.cursor strategy.gatingSequenceCache) :
    Handling top (trace ++ [(call, out)]) (s.withStrategy strategy) := by
  have hcache := hgrant.cache_le (List.mem_singleton_self _) h.cache_le
  have hclaims := hgrant.claims
  have hfollows := hgrant.follows
  have hroom := hgrant.room
  exact h.claims hout hbuffer (by omega) (by omega) (by omega) hcache

variable (hc : Addressing c top)
include hc

variable (htop : 2 ^ 31 * c.size ≤ top)
include htop

theorem Handling.publish {x : Int}
    (h : Handling top trace s) (h0 : 0 ≤ x) (hx : x ≤ s.cursor) (hnew : x ∉ s.published) :
    ∃ strategy, publish s.ring.strategy x = some strategy ∧
      Handling top (trace ++ [(.publish x, [])])
        { s.withStrategy strategy with published := x :: s.published } := by
  have hahead : s.poller.sequence < x := by
    by_contra! hle
    exact hnew (h.handled_published x h0 hle)
  have hwindow := h.window
  have hbounded := h.bounded
  obtain ⟨strategy, hpub, hcur, hcache, hmarks⟩ :=
    h.marks.publish hc h.poller_ge hahead (by omega) (by omega)
  refine ⟨strategy, hpub, ?_⟩
  exact { h with
    poller_le := h.poller_le.trans hcur.ge
    window := hcur.le.trans h.window
    bounded := hcur.trans_lt h.bounded
    cache_le := hcache ▸ h.cache_le
    published_claimed := by
      intro y hy
      change y ≤ strategy.cursor
      rw [hcur]
      rcases List.mem_cons.mp hy with rfl | hold
      · exact hx
      · exact h.published_claimed y hold
    handled_published := fun y hy0 hy => List.mem_cons_of_mem _ (h.handled_published y hy0 hy)
    marks := by
      change Marks strategy top s.poller.sequence (· ∈ x :: s.published)
      simpa only [List.mem_cons] using hmarks
    last_le := h.last_le.trans hcur.ge
    last_published := fun y hy hle => List.mem_cons_of_mem _ (h.last_published y hy hle)
    handled_eq := by
      rw [handled_snoc, h.handled_eq]
      exact List.append_nil _ }

variable (hmax : top ≤ 2 ^ 63 - 1)
include hmax

omit hc in
/-- A poll offers up to the first sequence that is not published. -/
theorem Handling.poll_eq (h : Handling top trace s) (handler : Handler T) :
    ∃ v, Frontier (· ∈ s.published) s.poller.sequence s.cursor v ∧
      EventPoller.poll (strategy c) s.ring s.poller handler =
        process s.ring s.cursor s.poller.sequence v handler := by
  have hbounded := h.bounded
  obtain ⟨v, hv, hfr⟩ := getHighestPublishedSequence_spec h.poller_ge h.marks h.poller_le
    (hbounded.trans_le htop) hmax h.window h.last_le
    h.last_published
  refine ⟨v, hfr, Disruptor.poll_eq h.poller_ge h.last_ge h.poller_le ?_ hv⟩
  change s.cursor < _
  omega

omit hmax in
omit htop in
theorem Handling.polled {v : Int} {poller : EventPoller}
    {os : List (Offer T)} (h : Handling top trace s)
    (hfr : Frontier (· ∈ s.published) s.poller.sequence s.cursor v)
    (hpolled : Polled s.poller.sequence v poller os) :
    Handling top (trace ++ [(.poll handler, os.map .offered)]) { s with poller } := by
  obtain ⟨hlast, ⟨d, ⟨hle, done, hdone, hseqs, hproc, hparts⟩, hseq, hos⟩, -⟩ := hpolled
  have hge := h.poller_ge
  have hupper := hfr.upper
  have hwindow := h.window
  have hreached : s.poller.sequence ≤ poller.sequence ∧ poller.sequence ≤ v := by omega
  have hpublished : ∀ x, s.poller.sequence < x → x ≤ v → x ∈ s.published := hfr.below
  exact { h with
    poller_ge := hge.trans hreached.1
    poller_le := hreached.2.trans hfr.upper
    window := by
      change s.cursor ≤ poller.sequence + c.size
      omega
    cache_le := h.cache_le.trans hreached.1
    handled_published := by
      intro x h0 hx
      change x ≤ poller.sequence at hx
      by_cases hbef : x ≤ s.poller.sequence
      · exact h.handled_published x h0 hbef
      · exact hpublished x (by omega) (by omega)
    marks := by
      change Marks s.ring.strategy top poller.sequence (· ∈ s.published)
      refine h.marks.advance hc hge hreached.1 (by omega) (fun x hx hle' => ?_) fun x hx hmem => ?_
      · exact hpublished x hx (by omega)
      · have hclaimed := h.published_claimed x hmem
        omega
    last_ge := by
      change -1 ≤ poller.lastAvailableSequence
      omega
    last_le := by
      change poller.lastAvailableSequence ≤ s.cursor
      omega
    last_published := by
      intro x hx hle'
      change poller.sequence < x at hx
      change x ≤ poller.lastAvailableSequence at hle'
      exact hpublished x (by omega) (by omega)
    handled_eq := by
      -- what the handler returned from continues what it had returned from
      have hret : (os.filter fun o => o.result != .threw) = done := by
        have hall : (done.filter fun o => o.result != .threw) = done :=
          List.filter_eq_self.mpr fun o ho => by simpa using hdone o ho
        rcases hparts with ⟨hoffers, -⟩ | ⟨-, -, o, hoffers, ho, -⟩
        · rw [hos, hoffers, hall]
        · rw [hos, hoffers, List.filter_append, hall]
          simp [ho]
      rw [handled_snoc, handled_offers, h.handled_eq, hret, hseqs]
      have hcnt : (poller.sequence + 1).toNat = (s.poller.sequence + 1).toNat + done.length := by
        omega
      have hnext : s.poller.sequence + 1 = 0 + ((s.poller.sequence + 1).toNat : Int) := by omega
      rw [hcnt, ← sequences_append, ← hnext] }

theorem Handling.keep (h : Handling top trace s) (hok : Allowed s call)
    (hstep : step s call = some (s', out)) : Handling top (trace ++ [(call, out)]) s' := by
  cases call with
  | next =>
    obtain ⟨⟨r, strategy⟩, hnext, hstep⟩ := bind_eq_some_iff.mp hstep
    cases hstep
    exact h.granted rfl hok (next_availableBuffer hnext)
      ((claiming c).next hnext)
  | tryNext =>
    obtain ⟨⟨_ | r, strategy⟩, hnext, hstep⟩ := bind_eq_some_iff.mp hstep
    · cases hstep
      obtain ⟨hcur, hcache, -⟩ := (claiming c).noCapacity hnext
      refine h.claims rfl (tryNext_availableBuffer hnext) hcur.ge
        (hcur ▸ h.window) (hcur ▸ h.bounded) ?_
      rw [hcache]
      exact getMinimumSequence_le_of_mem _ (List.mem_singleton_self _)
    · cases hstep
      exact h.granted rfl hok (tryNext_availableBuffer hnext)
        ((claiming c).tryNext hnext)
  | publish x =>
    obtain ⟨strategy, hpub, hstep⟩ := bind_eq_some_iff.mp hstep
    cases hstep
    obtain ⟨h0, hx, hnew⟩ := hok
    obtain ⟨_, hpub', hkeep⟩ := h.publish hc htop h0 hx hnew
    rw [hpub] at hpub'
    cases hpub'
    exact hkeep
  | poll handler =>
    obtain ⟨⟨_, _, _⟩, hpoll, hstep⟩ := bind_eq_some_iff.mp hstep
    cases hstep
    obtain ⟨v, hfr, heq⟩ := h.poll_eq htop hmax handler
    rw [heq] at hpoll
    exact h.polled hc hfr (process_spec hfr.lower hpoll)

theorem handling_of_run {entries : Vector T (c.size + 2 * rbPad)}
    (h : Run step Allowed (start entries) trace s) : Handling top trace s :=
  h.invariant (Handling.init hc entries) fun hkeep hok hstep =>
    hkeep.keep hc htop hmax hok hstep

omit hmax htop

omit hc

/-- Calls other than `poll` leave the poller alone and retract nothing. -/
theorem step_of_not_poll (hcall : call.isPoll = false) (hstep : step s call = some (s', out)) :
    s'.poller = s.poller ∧ s.published ⊆ s'.published := by
  cases call with
  | next =>
    obtain ⟨⟨r, strategy⟩, -, hstep⟩ := bind_eq_some_iff.mp hstep
    cases hstep
    exact ⟨rfl, List.Subset.refl _⟩
  | tryNext =>
    obtain ⟨⟨_ | r, strategy⟩, -, hstep⟩ := bind_eq_some_iff.mp hstep
    all_goals
      cases hstep
      exact ⟨rfl, List.Subset.refl _⟩
  | publish x =>
    obtain ⟨strategy, -, hstep⟩ := bind_eq_some_iff.mp hstep
    cases hstep
    exact ⟨rfl, List.subset_cons_self _ _⟩
  | poll handler => cases hcall

theorem run_of_not_poll (h : Run step Allowed s trace s')
    (hcalls : ∀ e ∈ trace, e.1.isPoll = false) :
    s'.poller = s.poller ∧ s.published ⊆ s'.published := by
  induction h with
  | nil => exact ⟨rfl, List.Subset.refl _⟩
  | snoc _ _ hstep ih =>
    obtain ⟨hpoller, hpublished⟩ := ih fun e he => hcalls e (List.mem_append_left _ he)
    obtain ⟨hpoller', hpublished'⟩ :=
      step_of_not_poll (hcalls _ (List.mem_append_right _ (List.mem_singleton_self _))) hstep
    exact ⟨hpoller'.trans hpoller, List.Subset.trans hpublished hpublished'⟩

variable (htop : 2 ^ 31 * c.size ≤ top)
include htop

include hmax

/-- A poll in terms of how far it may read. -/
theorem Handling.poll_cases
    (h : Handling top trace s) (hstep : step s (.poll handler) = some (s', out)) :
    ∃ v poller os, Frontier (· ∈ s.published) s.poller.sequence s.cursor v ∧
      Polled s.poller.sequence v poller os ∧ s' = { s with poller } ∧ out = os.map .offered := by
  obtain ⟨⟨poller, os, _⟩, hpoll, hstep⟩ := bind_eq_some_iff.mp hstep
  cases hstep
  obtain ⟨v, hfr, heq⟩ := h.poll_eq htop hmax handler
  rw [heq] at hpoll
  exact ⟨v, poller, os, hfr, process_spec hfr.lower hpoll, rfl, rfl⟩

theorem Handling.offers_published
    (h : Handling top trace s) (hstep : step s call = some (s', out)) :
    ∀ o, .offered o ∈ out → o.sequence ∈ s.published := by
  intro o ho
  cases call with
  | next =>
    obtain ⟨⟨r, strategy⟩, -, hstep⟩ := bind_eq_some_iff.mp hstep
    cases hstep
    simp at ho
  | tryNext =>
    obtain ⟨⟨_ | r, strategy⟩, -, hstep⟩ := bind_eq_some_iff.mp hstep
    all_goals
      cases hstep
      simp at ho
  | publish x =>
    obtain ⟨strategy, -, hstep⟩ := bind_eq_some_iff.mp hstep
    cases hstep
    cases ho
  | poll handler =>
    obtain ⟨v, _, _, hfr, hpolled, rfl, rfl⟩ := h.poll_cases htop hmax hstep
    obtain ⟨o', ho', heq⟩ := List.mem_map.mp ho
    obtain rfl := Output.offered.inj heq
    obtain ⟨hgt, hle⟩ := hpolled.sequence_range o' ho'
    exact hfr.below _ hgt hle

/-- A poll with something published ahead begins with the next sequence. -/
theorem Handling.poll_head (h : Handling top trace s) (hnext : s.poller.sequence + 1 ∈ s.published)
    (hstep : step s (.poll handler) = some (s', out)) :
    ∃ o rest, out = .offered o :: rest ∧ o.sequence = s.poller.sequence + 1 := by
  obtain ⟨v, _, _, hfr, hpolled, rfl, rfl⟩ := h.poll_cases htop hmax hstep
  have hclaimed := h.published_claimed _ hnext
  have hahead : s.poller.sequence < v := by
    by_contra! hle
    have hv : v = s.poller.sequence := le_antisymm hle hfr.lower
    exact hfr.stops (by omega) (hv ▸ hnext)
  obtain ⟨o, rest, rfl, ho⟩ := hpolled.head hahead
  exact ⟨o, rest.map .offered, rfl, ho⟩

end Invariant

/-! ## Exactly once -/

section ExactlyOnce

variable {top : Int} {trace : List (Call T × List (Output T))} {s : Pipeline T c} {call : Call T}

theorem Handling.defined (hc : Addressing c top) (hshift : c.indexShift ≤ 30)
    (htop : 2 ^ 31 * c.size ≤ top) (hmax : top ≤ 2 ^ 63 - 1) (h : Handling top trace s)
    (hok : Allowed s call) (hnone : step s call = none) :
    call = .next ∧ s.poller.sequence < s.cursor + 1 - c.size := by
  have hge : -1 ≤ s.cursor := h.poller_ge.trans h.poller_le
  cases call with
  | next =>
    refine ⟨rfl, ?_⟩
    change s.cursor + 1 < 2 ^ 31 * c.size at hok
    cases hnext : next s.ring.strategy [s.poller.sequence] 1 with
    | some r =>
      simp only [step, hnext] at hnone
      cases hnone
    | none =>
      have hint := int64_of_lt (show -1 ≤ s.cursor + 1 by omega) (by omega)
      have hfull := next_eq_none hint hnext
      rw [← not_le, le_getMinimumSequence_iff] at hfull
      by_contra! hroom
      refine hfull ⟨?_, fun g hg => ?_⟩
      · change s.cursor + 1 - c.size ≤ s.cursor
        omega
      · obtain rfl := List.mem_singleton.mp hg
        exact hroom
  | tryNext =>
    change s.cursor + 1 < 2 ^ 31 * c.size at hok
    have hint := int64_of_lt (show -1 ≤ s.cursor + 1 by omega) (by omega)
    obtain ⟨⟨_ | r, strategy⟩, hnext⟩ :=
      tryNext_defined [s.poller.sequence] hint
    all_goals
      simp only [step, hnext] at hnone
      cases hnone
  | publish x =>
    obtain ⟨h0, hx, hnew⟩ := hok
    obtain ⟨strategy, hpub, -⟩ := h.publish hc htop h0 hx hnew
    simp only [step, hpub] at hnone
    cases hnone
  | poll handler =>
    obtain ⟨v, hfr, heq⟩ := h.poll_eq htop hmax handler
    have hpoll : (process s.ring s.cursor s.poller.sequence v handler).isSome := by
      refine process_isSome fun x hgt hle => ?_
      have hge := h.poller_ge
      have hupper := hfr.upper
      have hbounded := h.bounded
      obtain ⟨n, rfl⟩ := Int.eq_ofNat_of_zero_le (show 0 ≤ x by omega)
      refine ⟨at?_isSome (entryIndex_of_shift_le hshift n) ?_, ?_⟩
      · have hmod := Nat.mod_lt n c.size_pos
        omega
      · rw [int64_of_lt (by omega) (by omega)]
        rfl
    obtain ⟨r, hr⟩ := Option.isSome_iff_exists.mp hpoll
    simp only [step, heq, hr] at hnone
    cases hnone

theorem deliversOnce_of_shift_le (hshift : c.indexShift ≤ 30) : DeliversOnce c := by
  have hsize := size_le_of_shift_le hshift
  have hc : Addressing c (2 ^ 62) := (addressing_of_shift_le (by omega)).mono (by decide)
  have htop : (2 ^ 31 * c.size : Int) ≤ 2 ^ 62 := by omega
  exact {
    in_order := fun h => by
      have hkeep := handling_of_run hc htop (by decide) h
      exact ⟨hkeep.poller_ge, hkeep.handled_eq⟩
    published_first := fun h _ hstep =>
      (handling_of_run hc htop (by decide) h).offers_published htop (by decide) hstep
    offered_again := by
      intro T entries trace trace' s s₁ s₂ s' handler handler' out out' o h hthrew ho hres
        hbetween hnopoll hstep
      have hkeep := handling_of_run hc htop (by decide) h
      have hpublished := hkeep.offers_published htop (by decide) hthrew o ho
      have hagain : o.sequence = s₁.poller.sequence + 1 ∧ s₁.published = s.published := by
        obtain ⟨v, _, _, -, hpolled, rfl, rfl⟩ := hkeep.poll_cases htop (by decide) hthrew
        obtain ⟨o', ho', heq⟩ := List.mem_map.mp ho
        obtain rfl := Output.offered.inj heq
        exact ⟨hpolled.threw o' ho' hres, rfl⟩
      obtain ⟨hpoller, hsubset⟩ := run_of_not_poll hbetween hnopoll
      have hrun : Run step Allowed (start entries)
          (trace ++ [(.poll handler, out)] ++ trace') s₂ :=
        (h.snoc (show Allowed s (.poll handler) from trivial) hthrew).append hbetween
      have hkeep₂ := handling_of_run hc htop (by decide) hrun
      rw [hagain.1, ← hagain.2, ← hpoller] at hpublished
      obtain ⟨o', rest, hout', hseq⟩ :=
        hkeep₂.poll_head htop (by decide) (hsubset hpublished) hstep
      exact ⟨o', rest, hout', by rw [hseq, hpoller, hagain.1]⟩
    defined := fun h hok hnone =>
      (handling_of_run hc htop (by decide) h).defined hc hshift htop (by decide) hok hnone }

end ExactlyOnce

/-! ## Rings of more than `2 ^ 30` slots -/

section Overflow

/-- Everything claimed, `n` sequences, is published and handled. -/
structure CaughtUp (n : Nat) (s : Pipeline T c) : Prop where
  cursor_eq : s.cursor = n - 1
  poller_eq : s.poller = ⟨n - 1, n - 1⟩
  published_lt : ∀ x ∈ s.published, x < n

/-- One more sequence is published. -/
structure OneAhead (n : Nat) (s : Pipeline T c) : Prop where
  cursor_eq : s.cursor = n
  poller_eq : s.poller = ⟨n - 1, n - 1⟩
  published_le : ∀ x ∈ s.published, x ≤ n
  available : MultiThreadedStrategy.isAvailable s.ring.strategy n = some true

variable {n : Nat} {s : Pipeline T c}

theorem CaughtUp.claim (hshift : 31 ≤ c.indexShift) (hn : n < 2 ^ 31) (h : CaughtUp n s) :
    ∃ trace s', Run step Allowed s trace s' ∧ OneAhead n s' := by
  have hsize := le_size_of_le_shift hshift
  have hcur := h.cursor_eq
  have hint := int64_of_lt (show -1 ≤ s.cursor + 1 by omega) (by omega)
  obtain ⟨⟨result, strategy⟩, htry⟩ :=
    tryNext_defined [s.poller.sequence] hint
  -- with nothing unread there is room
  obtain ⟨r, rfl⟩ : ∃ r, result = .ok r := by
    cases result with
    | ok r => exact ⟨r, rfl⟩
    | error e =>
      obtain ⟨-, hcache, hfull⟩ := (claiming c).noCapacity htry
      rw [hcache, ← not_le, le_getMinimumSequence_iff] at hfull
      refine absurd ⟨by omega, fun g hg => ?_⟩ hfull
      obtain rfl := List.mem_singleton.mp hg
      rw [h.poller_eq]
      change s.cursor + 1 - c.size ≤ (n : Int) - 1
      omega
  have hgrant := (claiming c).tryNext htry
  have hclaims : strategy.cursor = n := by
    have hfollows : r = s.cursor + 1 := hgrant.follows
    rw [hgrant.claims]
    omega
  obtain ⟨strategy', hpub, hcur', -, havailable, -⟩ :=
    setAvailable_eq (addressing_of_le_shift hshift) (show (0 : Int) ≤ n by omega)
      (by omega)
  have hfirst : step s .tryNext = some (s.withStrategy strategy, [.claimed r]) := by
    simp only [step, htry]
    rfl
  have hsecond : step (s.withStrategy strategy) (.publish n) =
      some ({ s.withStrategy strategy' with published := n :: s.published }, []) := by
    have hpub' : publish (s.withStrategy strategy).ring.strategy n =
      some strategy' := hpub
    simp only [step, hpub']
    rfl
  have hok : Allowed (s.withStrategy strategy) (.publish n) := by
    refine ⟨by omega, ?_, fun hmem => ?_⟩
    · exact hclaims.ge
    · have hlt := h.published_lt _ hmem
      omega
  refine ⟨_, _, (Run.nil.snoc ?_ hfirst).snoc hok hsecond, ?_⟩
  · change s.cursor + 1 < 2 ^ 31 * c.size
    omega
  · refine ⟨hcur'.trans hclaims, h.poller_eq, fun x hx => ?_, havailable⟩
    rcases List.mem_cons.mp hx with rfl | hold
    · exact le_rfl
    · exact (h.published_lt x hold).le

theorem OneAhead.poll_eq (hn : n < 2 ^ 31) (h : OneAhead n s) (handler : Handler T) :
    EventPoller.poll (strategy c) s.ring s.poller handler =
      process s.ring n (n - 1) n handler := by
  have hcur : s.ring.strategy.cursor = n := h.cursor_eq
  have hv : getHighestPublishedSequence s.ring.strategy
      (max s.poller.lastAvailableSequence (s.poller.sequence + 1)) s.ring.strategy.cursor =
      some (n : Int) := by
    have hmax : max ((n : Int) - 1) ((n : Int) - 1 + 1) = n := by omega
    have hone : ((n : Int) + 1 - n).toNat = 1 := by omega
    rw [h.poller_eq, hcur, getHighestPublishedSequence, hmax, hone,
      highestPublishedFrom, h.available, Option.bind_eq_bind,
      Option.bind_some, if_pos rfl, int64_of_lt (by omega) (by omega)]
    rfl
  have hseq : s.poller.sequence = n - 1 := by rw [h.poller_eq]
  have hlast : s.poller.lastAvailableSequence = n - 1 := by rw [h.poller_eq]
  have heq : EventPoller.poll (strategy c) s.ring s.poller handler =
      process s.ring s.ring.strategy.cursor s.poller.sequence n handler :=
    Disruptor.poll_eq (by omega) (by omega)
      (show s.poller.sequence ≤ s.ring.strategy.cursor by omega)
      (show s.ring.strategy.cursor < _ by omega) hv
  rw [heq, hseq, hcur]

theorem process_one {cursor x : Int} (h0 : 0 ≤ x) (hx : x < 2 ^ 31) {event : T}
    {ring : RingBuffer T (MultiThreadedStrategy c) c} (hevent : ring.at? x = some event) :
    process ring cursor (x - 1) x (fun _ _ _ => .returned true) =
      some (⟨x, x⟩, [⟨event, x, true, .returned true⟩], .ok .processing) := by
  have hone : (x - (x - 1)).toNat = 1 := by omega
  unfold process
  rw [if_pos (by omega), hone, Int.sub_add_cancel, deliver, hevent]
  simp [int64_of_lt (show -1 ≤ x + 1 by omega) (by omega), deliver]

theorem process_undefined {cursor x : Int} {handler : Handler T}
    {ring : RingBuffer T (MultiThreadedStrategy c) c} (hevent : ring.at? x = none) :
    process ring cursor (x - 1) x handler = none := by
  have hone : (x - (x - 1)).toNat = 1 := by omega
  unfold process
  rw [if_pos (by omega), hone, Int.sub_add_cancel, deliver, hevent]
  rfl

theorem CaughtUp.round (hshift : 31 ≤ c.indexShift) (hn : n < 2 ^ 31 - 16) (h : CaughtUp n s) :
    ∃ trace s', Run step Allowed s trace s' ∧ CaughtUp (n + 1) s' := by
  obtain ⟨trace, s₁, hrun, hahead⟩ := h.claim hshift (by omega)
  have hsize := le_size_of_le_shift hshift
  have hent : (s₁.ring.at? n).isSome :=
    at?_isSome (entryIndex_of_lt hshift hn) (by omega)
  obtain ⟨event, hent⟩ := Option.isSome_iff_exists.mp hent
  have hpoll := (hahead.poll_eq (by omega) fun _ _ _ => .returned true).trans
    (process_one (by omega) (by omega) hent)
  have hstep : step s₁ (.poll fun _ _ _ => .returned true) =
      some ({ s₁ with poller := ⟨n, n⟩ }, [.offered ⟨event, n, true, .returned true⟩]) := by
    simp only [step, hpoll]
    rfl
  refine ⟨_, _, hrun.snoc (show Allowed s₁ (.poll _) from trivial) hstep, ?_, ?_, fun x hx => ?_⟩
  · have hcur := hahead.cursor_eq
    change s₁.cursor = _
    omega
  · simp
  · have hle := hahead.published_le x hx
    omega

theorem caughtUp_run (hshift : 31 ≤ c.indexShift) (entries : Vector T (c.size + 2 * rbPad)) :
    ∀ n ≤ 2 ^ 31 - 16, ∃ trace s, Run step Allowed (start entries) trace s ∧ CaughtUp n s
  | 0, _ => ⟨[], _, Run.nil, rfl, rfl, nofun⟩
  | n + 1, hn => by
    obtain ⟨trace, s, hrun, hcaught⟩ := caughtUp_run hshift entries n (by omega)
    obtain ⟨_, s', hrun', hcaught'⟩ := hcaught.round hshift (by omega)
    exact ⟨_, s', hrun.append hrun', hcaught'⟩

/-- The poll of sequence `2 ^ 31 - 16` is undefined. -/
theorem poll_overflow (hshift : 31 ≤ c.indexShift) (entries : Vector T (c.size + 2 * rbPad))
    (handler : Handler T) :
    ∃ trace s, Run step Allowed (start entries) trace s ∧ step s (.poll handler) = none := by
  obtain ⟨trace, s, hrun, hcaught⟩ := caughtUp_run hshift entries _ le_rfl
  obtain ⟨_, s', hrun', hahead⟩ := hcaught.claim hshift (by decide)
  have hent : s'.ring.at? (2 ^ 31 - 16 : Nat) = none := by
    rw [RingBuffer.at?, entryIndex_overflow hshift]
    rfl
  have hpoll := (hahead.poll_eq (by decide) handler).trans (process_undefined hent)
  refine ⟨_, s', hrun.append hrun', ?_⟩
  simp only [step, hpoll]
  rfl

end Overflow

/-- Rings deliver every event once and in order exactly if they have at most
`2 ^ 30` slots. -/
theorem deliversOnce_iff (c : Size) : DeliversOnce c ↔ c.indexShift ≤ 30 := by
  refine ⟨fun h => ?_, deliversOnce_of_shift_le⟩
  by_contra! hshift
  obtain ⟨_, s, hrun, hnone⟩ := poll_overflow hshift
    (Vector.replicate _ ()) fun _ _ _ => .returned true
  have hdef := h.defined hrun (show Allowed s (.poll _) from trivial) hnone
  cases hdef.1

/-- The smallest ring that fails. -/
theorem not_deliversOnce : ¬ DeliversOnce ⟨31, by decide⟩ := by
  intro h
  obtain ⟨_, s, hrun, hnone⟩ := poll_overflow (c := ⟨31, by decide⟩) (by decide)
    (Vector.replicate _ ()) fun _ _ _ => .returned true
  have hdef := h.defined hrun (show Allowed s (.poll _) from trivial) hnone
  cases hdef.1

end Pipeline

end OpenCmw.Disruptor
