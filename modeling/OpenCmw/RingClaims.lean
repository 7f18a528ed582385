import OpenCmw.ClaimStrategy

/-!
# Claims never overwrite unread slots

Runs of a claim strategy whose gating sequences move between the calls. What
the calls of a run claimed is one stretch of sequence numbers after the other,
from 0 on (`Consecutive`), and the remembered minimum stays below every gating
sequence, since those never go back; so a claim that the remembered minimum
allows is one that the gating sequences allow.
-/

namespace OpenCmw.Disruptor

/-! ## Consecutive ranges -/

/-- The slots `(last - n, last]`. -/
structure Claim where
  n : Int
  last : Int
  deriving DecidableEq

def Claim.slots (a : Claim) : Set Int := Set.Ioc (a.last - a.n) a.last

/-- Each claim starts right after the one before, the first after `start`. -/
def Consecutive (start : Int) : List Claim → Prop
  | [] => True
  | a :: as => 0 < a.n ∧ a.last - a.n = start ∧ Consecutive a.last as

def endOf (start : Int) : List Claim → Int
  | [] => start
  | a :: as => endOf a.last as

theorem endOf_append {start : Int} {b : Claim} : ∀ {as : List Claim},
    endOf start (as ++ [b]) = b.last
  | [] => rfl
  | _ :: as => @endOf_append _ _ as

namespace Consecutive

theorem append {start : Int} {b : Claim} : ∀ {as : List Claim},
    Consecutive start as → 0 < b.n → b.last - b.n = endOf start as → Consecutive start (as ++ [b])
  | [], _, hn, hb => ⟨hn, hb, trivial⟩
  | _ :: _, ⟨hn, ha, has⟩, hbn, hb => ⟨hn, ha, has.append hbn hb⟩

theorem start_le_endOf {start : Int} : ∀ {as : List Claim},
    Consecutive start as → start ≤ endOf start as
  | [], _ => le_rfl
  | a :: as, ⟨hn, ha, has⟩ => by
    have hle := has.start_le_endOf
    change start ≤ endOf a.last as
    omega

/-- No gap. -/
theorem iUnion_slots {start : Int} : ∀ {as : List Claim}, Consecutive start as →
    (⋃ a ∈ as, a.slots) = Set.Ioc start (endOf start as)
  | [], _ => by simp [endOf]
  | a :: as, ⟨hn, ha, has⟩ => by
    have hslots : (⋃ b ∈ a :: as, b.slots) = a.slots ∪ ⋃ b ∈ as, b.slots := by
      simp [Set.iUnion_or, Set.iUnion_union_distrib]
    rw [hslots, has.iUnion_slots, Claim.slots, ha, endOf]
    exact Set.Ioc_union_Ioc_eq_Ioc (by omega) has.start_le_endOf

theorem disjoint {start : Int} : ∀ {as : List Claim}, Consecutive start as →
    as.Pairwise fun a b => Disjoint a.slots b.slots
  | [], _ => List.Pairwise.nil
  | a :: as, ⟨_, _, has⟩ => by
    refine List.Pairwise.cons (fun b hb => ?_) has.disjoint
    have hlater : b.slots ⊆ Set.Ioc a.last (endOf a.last as) := by
      rw [← has.iUnion_slots]
      exact Set.subset_biUnion_of_mem hb
    refine Set.disjoint_left.mpr fun x hxa hxb => ?_
    exact absurd (hlater hxb).1 (not_lt.mpr hxa.2)

end Consecutive

/-! ## Runs -/

/-- A strategy with the values of its gating sequences. -/
structure Gated (σ : Type) where
  strategy : σ
  gatingSequences : List Int

inductive Call where
  | next (nSlotsToClaim : Int)
  | tryNext (nSlotsToClaim : Int)
  | publish (sequence : Int)
  /-- The consumer with the `i`-th gating sequence goes on to `value`. -/
  | advance (i : Nat) (value : Int)
  deriving DecidableEq

inductive Answer where
  | claimed (claim : Claim)
  | noCapacity (nSlotsToClaim : Int)
  deriving DecidableEq

variable {σ : Type}

def Gated.step (S : ClaimStrategy σ) : StepFn (Gated σ) Call Answer
  | s, .next n => do
    let (r, strategy) ← S.next s.strategy s.gatingSequences n
    return ({ s with strategy }, [.claimed ⟨n, r⟩])
  | s, .tryNext n => do
    match ← S.tryNext s.strategy s.gatingSequences n with
    | (.ok r, strategy) => return ({ s with strategy }, [.claimed ⟨n, r⟩])
    | (.error .noCapacity, strategy) => return ({ s with strategy }, [.noCapacity n])
  | s, .publish sequence => do
    let strategy ← S.publish s.strategy sequence
    return ({ s with strategy }, [])
  | s, .advance i value =>
    some ({ s with gatingSequences := s.gatingSequences.set i value }, [])

variable (c : Size)

/-- Which sequences are published and how far the consumers go does not
matter for the claims, only that consumers never go back. -/
def Allowed (s : Gated σ) : Call → Prop
  | .next n | .tryNext n => 1 ≤ n ∧ n < c.size
  | .publish _ => True
  | .advance i value => ∀ g ∈ s.gatingSequences[i]?, g ≤ value

instance (c : Size) (s : Gated σ) : ∀ call, Decidable (Allowed c s call)
  | .next _ | .tryNext _ => inferInstanceAs (Decidable (_ ∧ _))
  | .publish _ => isTrue trivial
  | .advance i value =>
    match h : s.gatingSequences[i]? with
    | none => isTrue (by simp [Allowed, h])
    | some g => decidable_of_iff (g ≤ value) (by simp [Allowed, h])

def Answer.claim? : Answer → Option Claim
  | claimed a => some a
  | noCapacity _ => none

variable (trace : List (Call × List Answer))

def claims : List Claim :=
  trace.flatMap fun e => e.2.filterMap Answer.claim?

/-- The last sequence number claimed. -/
def lastClaimed : Int :=
  endOf initialCursorValue (claims trace)

theorem claims_snoc (trace : List (Call × List Answer)) (call : Call) (out : List Answer) :
    claims (trace ++ [(call, out)]) = claims trace ++ out.filterMap Answer.claim? := by
  simp [claims]

/-- The strategy goes on from what the trace claimed, and what it remembers
of the gating sequences is not above any of them. -/
structure Safe (claimed cache : σ → Int) (trace : List (Call × List Answer)) (s : Gated σ) :
    Prop where
  consecutive : Consecutive initialCursorValue (claims trace)
  claimed_eq : claimed s.strategy = lastClaimed trace
  cache_le : ∀ g ∈ s.gatingSequences, cache s.strategy ≤ g

/-- What a call may put out: a claim right behind the last one that all gating
sequences allow, or a refusal that one of them forces and that changes no
claim. -/
def Answered (claimed : σ → Int) (trace : List (Call × List Answer))
    (s s' : Gated σ) (out : List Answer) : Prop :=
  (∀ a, .claimed a ∈ out → a.last - a.n = lastClaimed trace ∧
    ∀ g ∈ s.gatingSequences, a.last - c.size ≤ g) ∧
  ∀ n, .noCapacity n ∈ out → claimed s'.strategy = claimed s.strategy ∧
    ∃ g ∈ s.gatingSequences, g < lastClaimed trace + n - c.size

section Strategy

variable {S : ClaimStrategy σ} {c : Size} {claimed cache : σ → Int}
  {trace : List (Call × List Answer)} {s s' : Gated σ} {call : Call} {out : List Answer}

/-- What a step can do, in terms of the claims and the remembered minimum. -/
inductive Effect (c : Size) (claimed cache : σ → Int) (s s' : Gated σ) :
    Call → List Answer → Prop
  | claim {call : Call} {n r : Int} (hpos : 1 ≤ n) (hgating : s'.gatingSequences = s.gatingSequences)
      (hgranted : Granted c s.gatingSequences (claimed s.strategy) (cache s.strategy) n r
        (claimed s'.strategy) (cache s'.strategy)) : Effect c claimed cache s s' call [.claimed ⟨n, r⟩]
  | refuse {n : Int} (hlt : n < c.size) (hgating : s'.gatingSequences = s.gatingSequences)
      (hclaimed : claimed s'.strategy = claimed s.strategy)
      (hcache : cache s'.strategy = getMinimumSequence s.gatingSequences (claimed s.strategy))
      (hfull : cache s'.strategy < claimed s.strategy + n - c.size) :
      Effect c claimed cache s s' (.tryNext n) [.noCapacity n]
  | publish {sequence : Int} (hgating : s'.gatingSequences = s.gatingSequences)
      (hclaimed : claimed s'.strategy = claimed s.strategy)
      (hcache : cache s'.strategy = cache s.strategy) :
      Effect c claimed cache s s' (.publish sequence) []
  | advance {i : Nat} {value : Int} (hforward : ∀ g ∈ s.gatingSequences[i]?, g ≤ value)
      (hgating : s'.gatingSequences = s.gatingSequences.set i value)
      (hstrategy : s'.strategy = s.strategy) :
      Effect c claimed cache s s' (.advance i value) []

theorem step_effect (hS : Claiming S c claimed cache) (hok : Allowed c s call)
    (h : Gated.step S s call = some (s', out)) : Effect c claimed cache s s' call out := by
  cases call with
  | next n =>
    obtain ⟨⟨r, strategy⟩, hnext, h⟩ := Option.bind_eq_some_iff.mp h
    cases h
    exact .claim hok.1 rfl (hS.next hnext)
  | tryNext n =>
    obtain ⟨⟨_ | r, strategy⟩, hnext, h⟩ := Option.bind_eq_some_iff.mp h
    · cases h
      obtain ⟨hclaimed, hcache, hfull⟩ := hS.noCapacity hnext
      exact .refuse hok.2 rfl hclaimed hcache hfull
    · cases h
      exact .claim hok.1 rfl (hS.tryNext hnext)
  | publish sequence =>
    obtain ⟨strategy, hpub, h⟩ := Option.bind_eq_some_iff.mp h
    cases h
    exact .publish rfl (hS.publish hpub).1 (hS.publish hpub).2
  | advance i value =>
    cases h
    exact .advance hok rfl rfl

variable (hsafe : Safe claimed cache trace s)
include hsafe

theorem Safe.of_no_claim (hout : out.filterMap Answer.claim? = [])
    (hclaimed : claimed s'.strategy = claimed s.strategy)
    (hcache : ∀ g ∈ s'.gatingSequences, cache s'.strategy ≤ g) :
    Safe claimed cache (trace ++ [(call, out)]) s' := by
  have hsame : claims (trace ++ [(call, out)]) = claims trace := by
    rw [claims_snoc, hout, List.append_nil]
  refine ⟨hsame ▸ hsafe.consecutive, ?_, hcache⟩
  rw [lastClaimed, hsame, hclaimed, hsafe.claimed_eq, lastClaimed]

theorem Safe.claim_follows {n r claimed' cache' : Int}
    (h : Granted c s.gatingSequences (claimed s.strategy) (cache s.strategy) n r claimed' cache') :
    r - n = lastClaimed trace := by
  rw [← hsafe.claimed_eq, h.follows]
  omega

theorem Safe.step (h : Effect c claimed cache s s' call out) :
    Safe claimed cache (trace ++ [(call, out)]) s' := by
  cases h with
  | @claim call n r hpos hgating hgrant =>
    have hsnoc : claims (trace ++ [(call, [.claimed ⟨n, r⟩])]) = claims trace ++ [⟨n, r⟩] :=
      claims_snoc trace call _
    refine ⟨?_, ?_, ?_⟩
    · rw [hsnoc]
      exact hsafe.consecutive.append (by dsimp only; omega) (hsafe.claim_follows hgrant)
    · rw [lastClaimed, hsnoc, endOf_append, hgrant.claims]
    · rw [hgating]
      exact fun g hg => hgrant.cache_le hg (hsafe.cache_le g hg)
  | refuse hlt hgating hclaimed hcache hfull =>
    refine hsafe.of_no_claim rfl hclaimed fun g hg => ?_
    rw [hcache]
    exact getMinimumSequence_le_of_mem _ (hgating ▸ hg)
  | publish hgating hclaimed hcache =>
    refine hsafe.of_no_claim rfl hclaimed ?_
    rw [hcache, hgating]
    exact hsafe.cache_le
  | @advance i value hforward hgating hstrategy =>
    refine hsafe.of_no_claim rfl (by rw [hstrategy]) fun g hg => ?_
    rw [hstrategy]
    rw [hgating] at hg
    obtain hold | rfl := List.mem_or_eq_of_mem_set hg
    · exact hsafe.cache_le g hold
    · -- the consumer that moved was not below the cache before
      by_cases hi : i < s.gatingSequences.length
      · exact (hsafe.cache_le _ (List.getElem_mem hi)).trans
          (hforward _ (List.getElem?_eq_getElem hi))
      · rw [List.set_eq_of_length_le (not_lt.mp hi)] at hg
        exact hsafe.cache_le g hg

theorem Safe.answered
    (h : Effect c claimed cache s s' call out) : Answered c claimed trace s s' out := by
  cases h with
  | @claim call n r hpos hgating hgrant =>
    refine ⟨fun a ha => ?_, fun n' hn' => by simp at hn'⟩
    obtain rfl := Answer.claimed.inj (List.mem_singleton.mp ha)
    exact ⟨hsafe.claim_follows hgrant, fun g hg =>
      hgrant.room.trans (hgrant.cache_le hg (hsafe.cache_le g hg))⟩
  | @refuse n hlt hgating hclaimed hcache hfull =>
    refine ⟨fun a ha => by simp at ha, fun n' hn' => ?_⟩
    obtain rfl := Answer.noCapacity.inj (List.mem_singleton.mp hn')
    refine ⟨hclaimed, ?_⟩
    -- `n < SIZE`, so it is not the producer's own position that is too low
    by_contra! hall
    rw [hcache, ← not_le, le_getMinimumSequence_iff, hsafe.claimed_eq] at hfull
    exact hfull ⟨by omega, hall⟩
  | publish | advance => exact ⟨nofun, nofun⟩

omit hsafe

theorem safe_of_run (hS : Claiming S c claimed cache) {m : Nat} (h : Run (Gated.step S) (Allowed c)
      ⟨S.init, addSequences [] initialCursorValue m⟩ trace s) : Safe claimed cache trace s := by
  refine h.invariant ⟨trivial, hS.init_claimed, fun g hg => ?_⟩ fun hsafe hok hstep =>
    hsafe.step (step_effect hS hok hstep)
  rw [hS.init_cache, List.eq_of_mem_replicate hg]

end Strategy

/-! ## Both strategies -/

inductive ProducerType where
  | single
  | multi
  deriving DecidableEq

def ProducerType.State : ProducerType → Type
  | single => SingleThreadedStrategy
  | multi => MultiThreadedStrategy c

def ProducerType.strategy (c : Size) : (kind : ProducerType) → ClaimStrategy (kind.State c)
  | single => SingleThreadedStrategy.strategy c
  | multi => MultiThreadedStrategy.strategy c

/-- The last sequence number claimed, where each strategy keeps it. -/
def ProducerType.claimed : (kind : ProducerType) → kind.State c → Int
  | single => SingleThreadedStrategy.nextValue
  | multi => MultiThreadedStrategy.cursor

def ProducerType.cache : (kind : ProducerType) → kind.State c → Int
  | single => SingleThreadedStrategy.cachedValue
  | multi => MultiThreadedStrategy.gatingSequenceCache

theorem ProducerType.claiming (c : Size) : ∀ kind : ProducerType,
    Claiming (kind.strategy c) c (kind.claimed c) (kind.cache c)
  | single => SingleThreadedStrategy.claiming c
  | multi => MultiThreadedStrategy.claiming c

/-- A new ring with `m` gating sequences. -/
def startGated (kind : ProducerType) (m : Nat) : Gated (kind.State c) :=
  ⟨(kind.strategy c).init, addSequences [] initialCursorValue m⟩

/-- The claims of every run follow one another without overlap or gap, no
claim reaches a slot that a gating sequence has not passed, and `tryNext`
refuses only claims that would. -/
theorem claims_keep_off_unread_slots (c : Size) (kind : ProducerType) (m : Nat)
    {trace : List (Call × List Answer)} {s : Gated (kind.State c)}
    (h : Run (Gated.step (kind.strategy c)) (Allowed c) (startGated c kind m) trace s) :
    Consecutive initialCursorValue (claims trace) ∧
      (claims trace).Pairwise (fun a b => Disjoint a.slots b.slots) ∧
      (⋃ a ∈ claims trace, a.slots) = Set.Ioc (-1) (lastClaimed trace) ∧
      ∀ call s' out, Allowed c s call → Gated.step (kind.strategy c) s call = some (s', out) →
        Answered c (kind.claimed c) trace s s' out := by
  have hclaiming := kind.claiming c
  have hsafe := safe_of_run hclaiming h
  exact ⟨hsafe.consecutive, hsafe.consecutive.disjoint, hsafe.consecutive.iUnion_slots,
    fun call s' out hok hstep => hsafe.answered (step_effect hclaiming hok hstep)⟩

def fourSlots : Size := ⟨2, by decide⟩

/-- Two consumers of four slots: a claim, a refusal while the slots are
unread, and the claim once both consumers have gone on. -/
def fourSlotsCalls : List Call :=
  [.next 3, .tryNext 2, .publish 2, .advance 0 2, .advance 1 1, .tryNext 2]

theorem claims_keep_off_unread_slots_four :
    ∃ trace s, Run (Gated.step (ProducerType.multi.strategy fourSlots)) (Allowed fourSlots)
        (startGated fourSlots .multi 2) trace s ∧
      trace.map Prod.snd = [[.claimed ⟨3, 2⟩], [.noCapacity 2], [], [], [], [.claimed ⟨2, 4⟩]] ∧
      (claims trace).Pairwise (fun a b => Disjoint a.slots b.slots) := by
  have hexec : ((exec (Gated.step (ProducerType.multi.strategy fourSlots)) (Allowed fourSlots)
      (startGated fourSlots .multi 2) fourSlotsCalls).map fun r => r.1.map Prod.snd) =
      some [[.claimed ⟨3, 2⟩], [.noCapacity 2], [], [], [], [.claimed ⟨2, 4⟩]] := by
    decide +kernel
  obtain ⟨⟨trace, s⟩, hexec, hanswers⟩ := Option.map_eq_some_iff.mp hexec
  have hrun := Run.of_exec hexec
  exact ⟨trace, s, hrun, hanswers, (claims_keep_off_unread_slots fourSlots .multi 2 hrun).2.1⟩

end OpenCmw.Disruptor
