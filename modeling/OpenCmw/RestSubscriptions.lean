import OpenCmw.RestClientSteps

/-!
# Subscriptions of the REST client are polled

A subscription lives as long as one of its polls is out: the response to a poll
is what leads to the next one. So after each step every subscription has to
have one poll among the requests, and every poll its subscription
(`PolledOnce`). Which steps keep that is `KeepsPolling`: a poll must not be
erased when its stream closes or its redirect cannot be read, and whatever
polls again has to be submitted.

Polls are counted (`pollCount`), and each step says what it does to the count:
a submission adds one, an erased record takes one away.
-/

namespace OpenCmw.RestClient

open Prod (mk)
open Or (inl inr)
open Platform (inOrder)
open Session
open UriFactory (ofUri build)
open LongPolling List Option Nat SortedMap

/-! ## The events of a session -/

inductive SessionEvent where
  | start (command : ClientCommand) (mode : SubscriptionMode)
  | stop (command : ClientCommand)
  | stream (event : StreamEvent)
  deriving DecidableEq

def Session.step (env : Environment) (s : Session) :
    SessionEvent → Option (Session × List Output)
  | .start command mode => s.startSubscription env command mode
  | .stop command => some (s.stopSubscription env command)
  | .stream event => s.receive env event

/-- Subscriptions are started with SUBSCRIBE commands, and the library names no
stream before it is opened. -/
def SessionEvent.Allowed (s : Session) : SessionEvent → Prop
  | .start command _ => command.command = .subscribe
  | .stop _ => True
  | .stream event => s.Known event.streamId

/-! ## Polls -/

/-- A poll of the subscription with this key. -/
def RequestResponse.IsPoll (key : Bytes) (rr : RequestResponse) : Prop :=
  rr.request.command = .subscribe ∧ rr.normalizedTopic = key
  deriving Decidable

/-- Each subscription has exactly one poll, and each poll a subscription. -/
structure PolledOnce (s : Session) : Prop where
  one : ∀ key sub, s.subscriptions.find? key = some sub → (s.polls key).length = 1
  active : ∀ streamId rr, s.requestsByStreamId.find? streamId = some rr →
    rr.request.command = .subscribe → ∃ sub, s.subscriptions.find? rr.normalizedTopic = some sub

def pollWeight (key : Bytes) (rr : RequestResponse) : Nat := if rr.IsPoll key then 1 else 0

def Session.pollCount (s : Session) (key : Bytes) : Nat :=
  s.requestsByStreamId.total (pollWeight key)

theorem length_polls (s : Session) (key : Bytes) : (s.polls key).length = s.pollCount key := by
  unfold polls pollCount total
  rw [length_map]
  induction s.requestsByStreamId.entries with
  | nil => rfl
  | cons e l ih =>
    rw [map_cons, sum_cons, ← ih, pollWeight]
    by_cases h : e.2.IsPoll key
    · rw [if_pos h, filter_cons_of_pos (by simpa [RequestResponse.IsPoll] using h),
        length_cons, add_comm]
    · rw [if_neg h, filter_cons_of_neg (by simpa [RequestResponse.IsPoll] using h), zero_add]

theorem pollCount_pos {s : Session} {key : Bytes} {streamId : Int} {rr : RequestResponse}
    (h : s.requestsByStreamId.find? streamId = some rr) (hpoll : rr.IsPoll key) :
    0 < s.pollCount key :=
  total_pos_iff.mpr ⟨streamId, rr, h, by rw [pollWeight, if_pos hpoll]; exact one_pos⟩

theorem exists_poll {s : Session} {key : Bytes} (h : 0 < s.pollCount key) :
    ∃ streamId rr, s.requestsByStreamId.find? streamId = some rr ∧ rr.IsPoll key := by
  obtain ⟨streamId, rr, hrr, hpos⟩ := total_pos_iff.mp h
  refine ⟨streamId, rr, hrr, ?_⟩
  by_contra hnot
  rw [pollWeight, if_neg hnot] at hpos
  cases hpos

/-- As a count: one for each subscription, none for other keys. -/
theorem polledOnce_iff {s : Session} : PolledOnce s ↔
    ∀ key, s.pollCount key = if (s.subscriptions.find? key).isSome then 1 else 0 := by
  constructor
  · intro h key
    cases hfind : s.subscriptions.find? key with
    | some sub => exact (length_polls s key).symm.trans (h.one key sub hfind)
    | none =>
      by_contra hne
      obtain ⟨streamId, rr, hrr, hcmd, htopic⟩ := exists_poll (pos_of_ne_zero hne)
      obtain ⟨sub, hsub⟩ := h.active streamId rr hrr hcmd
      rw [htopic, hfind] at hsub
      cases hsub
  · intro h
    refine ⟨fun key sub hsub => ?_, fun streamId rr hrr hcmd => ?_⟩
    · rw [length_polls, h key, hsub]
      rfl
    · have hpos := pollCount_pos hrr ⟨hcmd, rfl⟩
      rw [h] at hpos
      exact isSome_iff_exists.mp (by by_contra hnone; simp [hnone] at hpos)

/-! ## What every run keeps -/

structure Keyed (platform : Platform) (s : Session) : Prop where
  /-- Subscriptions are filed under the key of their topic. -/
  key : ∀ key sub, s.subscriptions.find? key = some sub → sub.request.command = .subscribe ∧
    subscriptionKey platform sub.request.topic = .ok key
  /-- Other records were made by a header or data of a stream without one. -/
  other : ∀ streamId rr, s.requestsByStreamId.find? streamId = some rr →
    rr.request.command ≠ .subscribe → rr.normalizedTopic = []
  numbered : s.Numbered

theorem subscriptionKey_ne_nil {platform : Platform} {topic : Uri .strict} {key : Bytes}
    (h : subscriptionKey platform topic = .ok key) : key ≠ [] := by
  obtain ⟨_, -, h⟩ := bind_eq_ok.mp h
  obtain ⟨_, -, h⟩ := bind_eq_ok.mp h
  obtain ⟨topic, -, h⟩ := bind_eq_ok.mp h
  cases h
  simp [Topic.toZmqTopic, str]

/-- A poll of a subscription was submitted, or tried to be. -/
structure Repolled (s : Session) (key : Bytes) (s' : Session) : Prop where
  results : s'.library.results = s.library.results
  submitted : s'.library.submitted = s.library.submitted + 1
  active : ∀ key, (s'.subscriptions.find? key).map (·.request) =
    (s.subscriptions.find? key).map (·.request)
  requests : ∃ rr : RequestResponse, rr.IsPoll key ∧ s'.requestsByStreamId =
    if 0 ≤ s.nextStreamId then s.requestsByStreamId.tryEmplace s.nextStreamId rr
    else s.requestsByStreamId

section
variable {env : Environment} {s s' : Session} {out : List Output} {key : Bytes}
  {sub : Subscription}

theorem isPoll_record {cmd : ClientCommand} (hcmd : cmd.command = .subscribe)
    (hkey : subscriptionKey env.platform cmd.topic = .ok key) :
    (record env cmd).IsPoll key := by
  refine ⟨hcmd, ?_⟩
  simp [record, normalizedTopic, hcmd, hkey]

variable (hs : Keyed env.platform s)
include hs

variable (hsub : s.subscriptions.find? key = some sub)
include hsub

/-- The next poll of a subscription whose index may have been renewed. -/
theorem Keyed.repoll
    {sub' : Subscription} (hreq : sub'.request = sub.request) {mode : SubscriptionMode}
    {longPollIdx : Option UInt64}
    (h : (s.setSubscription key sub').pollSubscription env sub' mode longPollIdx =
      some (s', out)) : Repolled s key s' := by
  have hsubmitted := (submitRequest_eq_some h).1
  obtain ⟨hcmd, hkey⟩ := hs.key key sub hsub
  rw [← hreq] at hcmd hkey
  refine ⟨hsubmitted.results, hsubmitted.submitted, fun k => ?_, _,
    isPoll_record hcmd hkey, hsubmitted.requests⟩
  rw [hsubmitted.subscriptions, find?_setSubscription]
  split_ifs with hk
  · rw [hk, hsub, map_some, map_some, hreq]
  · rfl

/-- The same without. -/
theorem Keyed.repoll_unchanged {mode : SubscriptionMode} {longPollIdx : Option UInt64}
    (h : s.pollSubscription env sub mode longPollIdx = some (s', out)) : Repolled s key s' := by
  have hsubmitted := (submitRequest_eq_some h).1
  obtain ⟨hcmd, hkey⟩ := hs.key key sub hsub
  exact ⟨hsubmitted.results, hsubmitted.submitted, fun k => by rw [hsubmitted.subscriptions], _,
    isPoll_record hcmd hkey, hsubmitted.requests⟩

theorem Keyed.sendLongPollRequests {index : UInt64}
    (h : s.sendLongPollRequests env key index index = some (s', out)) : Repolled s key s' := by
  unfold Session.sendLongPollRequests at h
  rw [hsub] at h
  have hone : (index - index).toNat + 1 = 1 := by simp
  split_ifs at h with hmax hle
  · rw [hone] at h
    obtain ⟨⟨_, _⟩, hpoll, h⟩ := bind_eq_some_iff.mp h
    obtain ⟨⟨_, _⟩, hrest, h⟩ := bind_eq_some_iff.mp h
    cases h
    cases hrest
    exact hs.repoll_unchanged hsub hpoll
  · exact absurd (UInt64.le_refl index) hle

variable {response : BrokerMessage}

theorem Keyed.handleSubscriptionResponse {index : UInt64} {hasError : Bool}
    (h : s.handleSubscriptionResponse env key index response hasError = some (s', out)) :
    Repolled s key s' := by
  unfold Session.handleSubscriptionResponse at h
  rw [hsub] at h
  dsimp only at h
  split at h
  · exact hs.repoll_unchanged hsub h
  · obtain ⟨⟨_, _⟩, hpoll, heq⟩ := map_eq_some_iff.mp h
    cases heq
    exact hs.repoll hsub (by rfl) hpoll

theorem Keyed.resume {nextIndex : Option UInt64}
    (h : s.resumeSubscriptionAfterBatchError env key response nextIndex = some (s', out)) :
    Repolled s key s' := by
  unfold resumeSubscriptionAfterBatchError at h
  rw [hsub] at h
  obtain ⟨⟨_, _⟩, hpoll, heq⟩ := map_eq_some_iff.mp h
  cases heq
  exact hs.repoll_unchanged hsub hpoll

theorem Keyed.handleSubscriptionBatchResponse {parts : List BatchPart}
    (h : s.handleSubscriptionBatchResponse env key parts response = some (s', out)) :
    Repolled s key s' := by
  unfold Session.handleSubscriptionBatchResponse at h
  rw [hsub] at h
  dsimp only at h
  split at h
  · obtain ⟨_, -, hresume⟩ := bind_eq_some_iff.mp h
    exact hs.resume hsub hresume
  · obtain ⟨_, -, h⟩ := bind_eq_some_iff.mp h
    obtain ⟨⟨_, _⟩, hpoll, heq⟩ := map_eq_some_iff.mp h
    cases heq
    exact hs.repoll hsub (by rfl) hpoll

omit hsub hs

end

/-! ## Outcomes of a response -/

/-- The response ends its subscription: an error without an index or to a batch,
or an update without an index. -/
def RequestResponse.endsSubscription (rr : RequestResponse) : Bool :=
  match usesLongPollingBatch rr.request.topic with
  | .error _ => false
  | .ok batch =>
    if rr.hasError then batch || rr.longPollingIdx.isNone else !batch && rr.longPollingIdx.isNone

section
variable {env : Environment} {s s' : Session} {out : List Output} {rr : RequestResponse}
  {sub : Subscription}

theorem Keyed.processUpdate (hs : Keyed env.platform s)
    (hsub : s.subscriptions.find? rr.normalizedTopic = some sub)
    (h : s.processUpdate env rr = some (s', out)) :
    (rr.endsSubscription = true ∧
      s' = { s with subscriptions := s.subscriptions.erase rr.normalizedTopic }) ∨
    (rr.endsSubscription = false ∧ Repolled s rr.normalizedTopic s') := by
  have hended : ∀ response,
      some (s.reportSubscriptionError rr.normalizedTopic response) = some (s', out) →
      s' = { s with subscriptions := s.subscriptions.erase rr.normalizedTopic } := by
    intro response h
    rw [Session.reportSubscriptionError, hsub] at h
    cases h
    rfl
  unfold Session.processUpdate at h
  unfold RequestResponse.endsSubscription
  cases hbatch : usesLongPollingBatch rr.request.topic with
  | error e =>
    rw [hbatch] at h
    cases h
  | ok batch =>
    rw [hbatch] at h
    dsimp only at h ⊢
    by_cases herror : rr.hasError = true
    · rw [if_pos herror] at h ⊢
      cases batch with
      | true => exact inl ⟨rfl, hended _ h⟩
      | false =>
        cases hidx : rr.longPollingIdx with
        | none =>
          rw [hidx] at h
          exact inl ⟨rfl, hended _ h⟩
        | some index =>
          rw [hidx] at h
          exact inr ⟨rfl, hs.handleSubscriptionResponse hsub h⟩
    · rw [if_neg herror] at h ⊢
      cases batch with
      | true =>
        rw [if_pos rfl] at h
        refine inr ⟨rfl, ?_⟩
        split at h
        · exact hs.resume hsub h
        · exact hs.handleSubscriptionBatchResponse hsub h
      | false =>
        rw [if_neg Bool.false_ne_true] at h
        cases hidx : rr.longPollingIdx with
        | none =>
          rw [hidx] at h
          exact inl ⟨rfl, hended _ h⟩
        | some index =>
          rw [hidx] at h
          exact inr ⟨rfl, hs.handleSubscriptionResponse hsub h⟩

end

/-! ## What a step does -/

/-- The command starts a subscription that is not there. -/
def Opens (platform : Platform) (s : Session) (command : ClientCommand)
    (mode : SubscriptionMode) : Prop :=
  ∃ index topic mode' batch key,
    takeInitialLongPollingIndex platform command.topic mode = .ok (index, topic, mode') ∧
    usesLongPollingBatch topic = .ok batch ∧ subscriptionKey platform topic = .ok key ∧
    s.subscriptions.find? key = none

section
variable {env : Environment} {s s' : Session} {out : List Output} {rr : RequestResponse}
  {streamId : Int}

/-- A response to a poll whose subscription is gone changes nothing. -/
theorem processUpdate_of_none (hsub : s.subscriptions.find? rr.normalizedTopic = none)
    (h : s.processUpdate env rr = some (s', out)) : s' = s := by
  have hnone : ∀ o : Option (Session × List Output), o = some (s', out) → o = some (s, []) →
      s' = s := by
    rintro _ rfl heq
    exact (mk.inj (some.inj heq)).1
  unfold processUpdate at h
  split at h
  · cases h
  · split_ifs at h
    · split at h <;> refine hnone _ h ?_
      · rw [handleSubscriptionResponse, hsub]
      · rw [reportSubscriptionError, hsub]
    · split at h <;> refine hnone _ h ?_
      · rw [resumeSubscriptionAfterBatchError, hsub]
      · rw [handleSubscriptionBatchResponse, hsub]
    · split at h <;> refine hnone _ h ?_
      · rw [reportSubscriptionError, hsub]
      · rw [handleSubscriptionResponse, hsub]

/-- Before its record is erased, a response leaves everything as it is, ends its
subscription or polls again. -/
theorem Keyed.respond (hs : Keyed env.platform s) (h : s.respond env rr = some (s', out)) :
    s' = s ∨ s' = { s with subscriptions := s.subscriptions.erase rr.normalizedTopic } ∨
      Repolled s rr.normalizedTopic s' := by
  unfold Session.respond at h
  cases hsub : s.subscriptions.find? rr.normalizedTopic with
  | none =>
    left
    cases htimedOut : rr.timedOut with
    | some index =>
      rw [htimedOut] at h
      exact sendLongPollRequests_of_none hsub h
    | none =>
      rw [htimedOut] at h
      split_ifs at h
      · exact processUpdate_of_none hsub h
      · exact (mk.inj (some.inj h)).1.symm
  | some sub =>
    cases htimedOut : rr.timedOut with
    | some index =>
      rw [htimedOut] at h
      exact inr (inr (hs.sendLongPollRequests hsub h))
    | none =>
      rw [htimedOut] at h
      split_ifs at h
      · rcases hs.processUpdate hsub h with ⟨-, hended⟩ | ⟨-, hpolled⟩
        · exact inr (inl hended)
        · exact inr (inr hpolled)
      · exact inl (mk.inj (some.inj h)).1.symm

/-- A start changes nothing, renews a subscription, or opens one and polls it. -/
theorem startSubscription_eq_some {command : ClientCommand} {mode : SubscriptionMode}
    (h : s.startSubscription env command mode = some (s', out)) :
    (¬Opens env.platform s command mode ∧ s' = s) ∨
    (¬Opens env.platform s command mode ∧ ∃ key old sub, s.subscriptions.find? key = some old ∧
      sub.request.command = command.command ∧
      subscriptionKey env.platform sub.request.topic = .ok key ∧ s' = s.setSubscription key sub) ∨
    (Opens env.platform s command mode ∧ ∃ key sub, s.subscriptions.find? key = none ∧
      sub.request.command = command.command ∧
      subscriptionKey env.platform sub.request.topic = .ok key ∧
      Submitted (s.setSubscription key sub) (record env sub.request) s') := by
  unfold startSubscription at h
  cases htake : takeInitialLongPollingIndex env.platform command.topic mode with
  | error e =>
    rw [htake] at h
    refine inl ⟨?_, (mk.inj (some.inj h)).1.symm⟩
    rintro ⟨index, topic, mode', batch, key, htake', -⟩
    rw [htake] at htake'
    cases htake'
  | ok taken =>
    obtain ⟨index, topic, mode'⟩ := taken
    rw [htake] at h
    dsimp only at h
    -- whatever the command opens has this topic
    have hopens : Opens env.platform s command mode → ∃ batch key,
        usesLongPollingBatch topic = .ok batch ∧ subscriptionKey env.platform topic = .ok key ∧
        s.subscriptions.find? key = none := by
      rintro ⟨_, _, _, batch, key, htake', hbatch, hkey, hnone⟩
      rw [htake] at htake'
      cases htake'
      exact ⟨batch, key, hbatch, hkey, hnone⟩
    cases hbatch : usesLongPollingBatch topic with
    | error e =>
      rw [hbatch] at h
      refine inl ⟨fun ho => ?_, (mk.inj (some.inj h)).1.symm⟩
      obtain ⟨batch, key, hbatch', -⟩ := hopens ho
      rw [hbatch] at hbatch'
      cases hbatch'
    | ok batch =>
      cases hkey : subscriptionKey env.platform topic with
      | error e =>
        rw [hbatch, hkey] at h
        refine inl ⟨fun ho => ?_, (mk.inj (some.inj h)).1.symm⟩
        obtain ⟨batch, key, -, hkey', -⟩ := hopens ho
        rw [hkey] at hkey'
        cases hkey'
      | ok key =>
        rw [hbatch, hkey] at h
        dsimp only at h
        cases hfind : s.subscriptions.find? key with
        | none =>
          rw [hfind] at h
          refine inr (inr ⟨⟨index, topic, mode', batch, key, htake, hbatch, hkey,
            hfind⟩, key, _, hfind, rfl, hkey, (submitRequest_eq_some h).1⟩)
        | some sub =>
          have hclosed : ¬Opens env.platform s command mode := fun ho => by
            obtain ⟨_, _, -, hkey', hnone⟩ := hopens ho
            rw [hkey] at hkey'
            cases hkey'
            rw [hfind] at hnone
            cases hnone
          rw [hfind] at h
          dsimp only at h
          split at h
          · split_ifs at h
            exact inl ⟨hclosed, (mk.inj (some.inj h)).1.symm⟩
          · split_ifs at h
            · exact inl ⟨hclosed, (mk.inj (some.inj h)).1.symm⟩
            · refine inr (inl ⟨hclosed, key, sub, _, hfind, ?_, ?_,
                (mk.inj (some.inj h)).1.symm⟩)
              · rfl
              · exact hkey

end

/-! ## Runs keep the keys -/

section
variable {env : Environment} {s s' : Session} {out : List Output} {rr : RequestResponse}
  {key : Bytes}

theorem Keyed.init (platform : Platform) (library : Library) : Keyed platform { library } := by
  constructor
  all_goals
    intro _ _ h
    cases h

variable (hs : Keyed env.platform s)
include hs

/-- Entries and records may go. -/
theorem Keyed.of_subset (hlibrary : s'.library = s.library)
    (hsubs : ∀ key sub, s'.subscriptions.find? key = some sub →
      s.subscriptions.find? key = some sub)
    (hreqs : ∀ streamId rr, s'.requestsByStreamId.find? streamId = some rr →
      s.requestsByStreamId.find? streamId = some rr) : Keyed env.platform s' :=
  ⟨fun key sub h => hs.key key sub (hsubs key sub h),
    fun streamId rr h => hs.other streamId rr (hreqs streamId rr h),
    hs.numbered.of_subset hlibrary hreqs⟩

theorem Keyed.eraseRequest (streamId : Int) : Keyed env.platform (s.eraseRequest streamId) :=
  hs.of_subset rfl (fun _ _ h => h) fun _ _ h => find?_of_erase h

/-- A record is added under a stream that the library names once. -/
theorem Keyed.of_submission (hresults : s'.library.results = s.library.results)
    (hsub : s'.library.submitted = s.library.submitted + 1)
    (hpoll : rr.request.command = .subscribe) (hreqs : s'.requestsByStreamId = s.filed rr)
    (hkey : ∀ key sub, s'.subscriptions.find? key = some sub → sub.request.command = .subscribe ∧
        subscriptionKey env.platform sub.request.topic = .ok key) : Keyed env.platform s' := by
  refine ⟨hkey, fun streamId rr' h hother => ?_,
    hs.numbered.of_submission hresults hsub hreqs⟩
  rcases find?_of_submission hreqs h with hbef | ⟨-, -, rfl⟩
  · exact hs.other streamId rr' hbef hother
  · exact absurd hpoll hother

omit hs

theorem Repolled.keyed (h : Repolled s key s') (hs : Keyed env.platform s) :
    Keyed env.platform s' := by
  obtain ⟨_, hpoll, hreqs⟩ := h.requests
  refine hs.of_submission h.results h.submitted hpoll.1 hreqs fun k sub hsub => ?_
  have hactive := h.active k
  rw [hsub, map_some] at hactive
  obtain ⟨old, hold, hreq⟩ := map_eq_some_iff.mp hactive.symm
  rw [← hreq]
  exact hs.key k old hold

include hs

theorem Keyed.setSubscription {sub : Subscription} (hcmd : sub.request.command = .subscribe)
    (hkey : subscriptionKey env.platform sub.request.topic = .ok key) :
    Keyed env.platform (s.setSubscription key sub) := by
  refine ⟨fun k sub' h => ?_, hs.other, hs.numbered⟩
  rw [find?_setSubscription] at h
  split_ifs at h with hk
  · cases h
    exact ⟨hcmd, hk ▸ hkey⟩
  · exact hs.key k sub' h

/-- A record that a header or data makes is no poll. -/
theorem Keyed.updateRecord {streamId : Int} (hknown : s.Known streamId)
    {f : RequestResponse → RequestResponse}
    (hf : ∀ rr, (f rr).request = rr.request ∧ (f rr).normalizedTopic = rr.normalizedTopic) :
    Keyed env.platform (s.updateRecord streamId f) := by
  refine ⟨hs.key, forall_updateRecord (fun _ => rfl) (fun rr hrr => ?_) hs.other,
    hs.numbered.updateRecord hknown f⟩
  rw [(hf rr).1, (hf rr).2]
  exact hrr

theorem Keyed.stopSubscription (command : ClientCommand) :
    Keyed env.platform (s.stopSubscription env command).1 := by
  unfold Session.stopSubscription
  split
  · exact hs
  · split
    · exact hs
    · refine hs.of_subset rfl (fun _ _ h => find?_of_erase h) fun streamId rr h => ?_
      rw [find?_eq_some_iff] at h ⊢
      exact mem_of_mem_filter h

theorem Keyed.processResponse {streamId : Int}
    (h : s.processResponse env streamId = some (s', out)) : Keyed env.platform s' := by
  have hsend : ∀ {key index s₁},
      s.sendLongPollRequests env key index index = some (s₁, out) → Keyed env.platform s₁ := by
    intro key index s₁ hsend
    cases hsub : s.subscriptions.find? key with
    | none => exact sendLongPollRequests_of_none hsub hsend ▸ hs
    | some sub => exact (hs.sendLongPollRequests hsub hsend).keyed hs
  cases hrr : s.requestsByStreamId.find? streamId with
  | none =>
    rw [Session.processResponse, hrr] at h
    exact (mk.inj (some.inj h)).1 ▸ hs
  | some rr =>
    rcases processResponse_eq_some hrr h with
      ⟨-, error, -, rfl, -⟩ | ⟨-, index, s₁, -, hsent, rfl⟩ | ⟨-, s₁, hrespond, rfl⟩
    · exact hs.eraseRequest streamId
    · exact (hsend hsent).eraseRequest streamId
    · refine Keyed.eraseRequest ?_ streamId
      rcases hs.respond hrespond with rfl | rfl | hrepolled
      · exact hs
      · exact hs.of_subset rfl (fun _ _ h => find?_of_erase h) fun _ _ h => h
      · exact hrepolled.keyed hs

theorem Keyed.receive {event : StreamEvent}
    (hknown : s.Known event.streamId) (h : s.receive env event = some (s', out)) :
    Keyed env.platform s' := by
  cases event with
  | header streamId name value =>
    rcases (receive_header h).1 with rfl | ⟨f, rfl, hf⟩
    · exact hs
    · exact hs.updateRecord hknown hf
  | data streamId data =>
    cases h
    exact hs.updateRecord hknown fun _ => ⟨rfl, rfl⟩
  | endStream streamId => exact hs.processResponse h
  | close streamId =>
    cases h
    exact hs.eraseRequest streamId

theorem Keyed.step {e : SessionEvent} (hallowed : e.Allowed s)
    (h : s.step env e = some (s', out)) : Keyed env.platform s' := by
  cases e with
  | start command mode =>
    have hcmd : command.command = .subscribe := hallowed
    rcases startSubscription_eq_some h with
      ⟨-, rfl⟩ | ⟨-, key, old, sub, -, hsub, hkey, rfl⟩ |
      ⟨-, key, sub, -, hsub, hkey, hsubmitted⟩
    · exact hs
    · exact hs.setSubscription (hsub.trans hcmd) hkey
    · have hset := hs.setSubscription (hsub.trans hcmd) hkey
      refine hset.of_submission hsubmitted.results hsubmitted.submitted (hsub.trans hcmd)
        hsubmitted.requests fun k sub' hfind => ?_
      rw [hsubmitted.subscriptions] at hfind
      exact hset.key k sub' hfind
  | stop command =>
    have hstop := hs.stopSubscription command
    rw [some.inj h] at hstop
    exact hstop
  | stream event => exact hs.receive hallowed h

omit hs

theorem keyed_of_run {library : Library} {trace : List (SessionEvent × List Output)}
    (h : Run (Session.step env) (fun s e => e.Allowed s) { library } trace s) :
    Keyed env.platform s :=
  h.invariant (I := fun _ s => Keyed env.platform s) (Keyed.init _ _)
    fun hs hallowed hstep => hs.step hallowed hstep

end

/-! ## Counting over a step -/

section
variable {env : Environment} {s s' : Session} {key : Bytes} {rr : RequestResponse}

/-- A submitted poll is counted. -/
theorem Keyed.pollCount_submitted (hs : Keyed env.platform s) (hpoll : rr.IsPoll key)
    (hreqs : s'.requestsByStreamId = s.filed rr) (k : Bytes) :
    s'.pollCount k = s.pollCount k + if 0 ≤ s.nextStreamId ∧ k = key then 1 else 0 := by
  obtain ⟨hcmd, htopic⟩ := hpoll
  refine (hs.numbered.total_submission hreqs (pollWeight k)).trans (congrArg _ ?_)
  by_cases hok : 0 ≤ s.nextStreamId
  · simp only [pollWeight, RequestResponse.IsPoll, hcmd, htopic, hok, if_true, true_and,
      eq_comm]
  · rw [if_neg hok, if_neg fun h => hok h.1]

theorem Repolled.pollCount (h : Repolled s key s') (hs : Keyed env.platform s) (k : Bytes) :
    s'.pollCount k = s.pollCount k + if 0 ≤ s.nextStreamId ∧ k = key then 1 else 0 := by
  obtain ⟨_, hpoll, hreqs⟩ := h.requests
  exact hs.pollCount_submitted hpoll hreqs k

variable {streamId : Int}

theorem Repolled.find?_of_known (h : Repolled s key s') (hknown : s.Known streamId) :
    s'.requestsByStreamId.find? streamId = s.requestsByStreamId.find? streamId := by
  obtain ⟨_, -, hreqs⟩ := h.requests
  have hne : streamId ≠ s.nextStreamId := fun heq => hknown _ le_rfl heq.symm
  rw [hreqs]
  split_ifs
  · unfold tryEmplace
    split_ifs
    · rfl
    · exact find?_insert_of_ne _ _ hne
  · rfl

theorem Repolled.isSome_find? (h : Repolled s key s') (k : Bytes) :
    (s'.subscriptions.find? k).isSome = (s.subscriptions.find? k).isSome := by
  have := congrArg isSome (h.active k)
  simpa using this

theorem pollCount_eraseRequest (h : s.requestsByStreamId.find? streamId = some rr) (k : Bytes) :
    (s.eraseRequest streamId).pollCount k + pollWeight k rr = s.pollCount k := by
  have herase := s.requestsByStreamId.total_erase streamId (pollWeight k)
  rwa [h] at herase

theorem pollWeight_self (hcmd : rr.request.command = .subscribe) (k : Bytes) :
    pollWeight k rr = if k = rr.normalizedTopic then 1 else 0 := by
  simp only [pollWeight, RequestResponse.IsPoll, hcmd, true_and, eq_comm]

theorem pollWeight_other (hcmd : rr.request.command ≠ .subscribe) (k : Bytes) :
    pollWeight k rr = 0 := if_neg fun h => hcmd h.1

/-- A poll that is answered by another poll. -/
theorem Repolled.polledOnce_iff (h : Repolled s rr.normalizedTopic s') (hs : Keyed env.platform s)
    (hpolled : PolledOnce s) (hrr : s.requestsByStreamId.find? streamId = some rr)
    (hcmd : rr.request.command = .subscribe) :
    PolledOnce (s'.eraseRequest streamId) ↔ 0 ≤ s.nextStreamId := by
  have hknown := hs.numbered streamId rr hrr
  have hcounts := RestClient.polledOnce_iff.mp hpolled
  have herase : ∀ k, (s'.eraseRequest streamId).pollCount k + pollWeight k rr = s'.pollCount k :=
    pollCount_eraseRequest ((h.find?_of_known hknown).trans hrr)
  have hsome : ∀ k, ((s'.eraseRequest streamId).subscriptions.find? k).isSome =
      (s.subscriptions.find? k).isSome := h.isSome_find?
  rw [RestClient.polledOnce_iff]
  constructor
  · intro hcnt
    by_contra hfailed
    have hkey := hcnt rr.normalizedTopic
    have := herase rr.normalizedTopic
    rw [h.pollCount hs, pollWeight_self hcmd, if_pos rfl, if_neg fun hok => hfailed hok.1,
      hkey, hsome, hcounts] at this
    omega
  · intro hok k
    have := herase k
    rw [h.pollCount hs, pollWeight_self hcmd, hcounts k] at this
    rw [hsome]
    simp only [hok, true_and] at this
    omega

/-! ## Which steps keep it -/

/-- A poll is not lost: its redirect can be read, its stream is not closed
before the response is complete, and what polls next can be submitted, unless
the response ends the subscription. -/
def KeepsPolling (platform : Platform) (s : Session) : SessionEvent → Prop
  | .start command mode => Opens platform s command mode → 0 ≤ s.nextStreamId
  | .stream (.endStream streamId) => ∀ rr, s.requestsByStreamId.find? streamId = some rr →
      rr.request.command = .subscribe → if rr.responseStatus = str "302" then
        (∃ index, redirectIndex platform rr.location = .ok index) ∧ 0 ≤ s.nextStreamId
      else rr.timedOut = none ∧ rr.endsSubscription = true ∨ 0 ≤ s.nextStreamId
  | .stream (.close streamId) => ∀ rr, s.requestsByStreamId.find? streamId = some rr →
      rr.request.command ≠ .subscribe
  | _ => True

variable (hpolled : PolledOnce s)
include hpolled

variable (hrr : s.requestsByStreamId.find? streamId = some rr)
include hrr

/-- An erased poll leaves its subscription without one. -/
theorem not_polledOnce_of_erased
    (hcmd : rr.request.command = .subscribe) : ¬PolledOnce (s.eraseRequest streamId) := by
  intro hafter
  obtain ⟨_, -⟩ := hpolled.active streamId rr hrr hcmd
  have hbef := polledOnce_iff.mp hpolled rr.normalizedTopic
  have hcnt := polledOnce_iff.mp hafter rr.normalizedTopic
  have herase := pollCount_eraseRequest hrr rr.normalizedTopic
  rw [pollWeight_self hcmd, if_pos rfl, hcnt, hbef] at herase
  have hsame : (s.eraseRequest streamId).subscriptions = s.subscriptions := rfl
  rw [hsame] at herase
  omega

omit hrr

variable (hother : ∀ rr, s.requestsByStreamId.find? streamId = some rr → rr.request.command ≠ .subscribe)
include hother

/-- Other records are not counted. -/
theorem polledOnce_of_erased : PolledOnce (s.eraseRequest streamId) := by
  refine polledOnce_iff.mpr fun k => ?_
  have hbef := polledOnce_iff.mp hpolled k
  have herase := s.requestsByStreamId.total_erase streamId (pollWeight k)
  have hweight : (s.requestsByStreamId.find? streamId).elim 0 (pollWeight k) = 0 := by
    cases hrr : s.requestsByStreamId.find? streamId with
    | none => rfl
    | some rr => exact pollWeight_other (hother rr hrr) k
  rw [hweight] at herase
  exact herase.trans hbef

omit hother

include hrr

/-- The subscription goes with its last poll. -/
theorem polledOnce_of_ended
    (hcmd : rr.request.command = .subscribe) :
    PolledOnce ({ s with
      subscriptions := s.subscriptions.erase rr.normalizedTopic }.eraseRequest streamId) := by
  refine polledOnce_iff.mpr fun k => ?_
  have hbef := polledOnce_iff.mp hpolled k
  have herase := pollCount_eraseRequest hrr k
  rw [pollWeight_self hcmd, hbef] at herase
  obtain ⟨_, hsub⟩ := hpolled.active streamId rr hrr hcmd
  by_cases hk : k = rr.normalizedTopic
  · subst hk
    rw [hsub, if_pos rfl] at herase
    have hnone := s.subscriptions.find?_erase_self rr.normalizedTopic
    change (s.eraseRequest streamId).pollCount _ =
      if ((s.subscriptions.erase rr.normalizedTopic).find? _).isSome then 1 else 0
    rw [hnone]
    exact succ.inj herase
  · rw [if_neg hk] at herase
    change (s.eraseRequest streamId).pollCount _ =
      if ((s.subscriptions.erase rr.normalizedTopic).find? _).isSome then 1 else 0
    rw [find?_erase_of_ne _ hk]
    exact herase

omit hrr hpolled

variable {f : RequestResponse → RequestResponse}

theorem pollCount_updateRecord (s : Session) (streamId : Int)
    (hf : ∀ rr, (f rr).request = rr.request ∧ (f rr).normalizedTopic = rr.normalizedTopic)
    (k : Bytes) : (s.updateRecord streamId f).pollCount k = s.pollCount k := by
  have hweight : ∀ rr, pollWeight k (f rr) = pollWeight k rr := fun rr => by
    have hpoll : (f rr).IsPoll k ↔ rr.IsPoll k := by
      rw [RequestResponse.IsPoll, (hf rr).1, (hf rr).2, RequestResponse.IsPoll]
    exact if_congr hpoll rfl rfl
  exact total_updateRecord s streamId hweight (pollWeight_other (by decide) k)

include hpolled

/-- Stopping takes the polls with the entry. -/
theorem PolledOnce.stopSubscription (command : ClientCommand) :
    PolledOnce (s.stopSubscription env command).1 := by
  unfold Session.stopSubscription
  split
  · exact hpolled
  · rename_i key hkey
    split
    · exact hpolled
    · refine ⟨fun k sub hsub => ?_, fun streamId rr hrr hcmd => ?_⟩
      · have hk : k ≠ key := by
          rintro rfl
          rw [find?_erase_self] at hsub
          cases hsub
        rw [← hpolled.one k sub (find?_of_erase hsub)]
        unfold Session.polls
        rw [List.filter_filter]
        congr 2
        refine filter_congr fun e _ => ?_
        have hother : e.2.normalizedTopic = k → e.2.normalizedTopic ≠ key := fun h => h ▸ hk
        simpa using fun _ h => inr (hother h)
      · rw [find?_eq_some_iff, mem_filter] at hrr
        obtain ⟨hmem, hkept⟩ := hrr
        have hne : rr.normalizedTopic ≠ key := fun h => of_decide_eq_true hkept ⟨hcmd, h⟩
        rw [find?_erase_of_ne _ hne]
        exact hpolled.active streamId rr (find?_eq_some_iff.mpr hmem) hcmd

/-- A renewed entry is polled as before. -/
theorem PolledOnce.setSubscription {old sub : Subscription}
    (hold : s.subscriptions.find? key = some old) : PolledOnce (s.setSubscription key sub) := by
  refine polledOnce_iff.mpr fun k => ?_
  have hbef : (s.setSubscription key sub).pollCount k = _ := polledOnce_iff.mp hpolled k
  rw [hbef, find?_setSubscription]
  by_cases hk : k = key
  · rw [if_pos hk, hk, hold]
    rfl
  · rw [if_neg hk]

theorem PolledOnce.updateRecord (streamId : Int)
    (hf : ∀ rr, (f rr).request = rr.request ∧ (f rr).normalizedTopic = rr.normalizedTopic) :
    PolledOnce (s.updateRecord streamId f) :=
  polledOnce_iff.mpr fun k =>
    (pollCount_updateRecord s streamId hf k).trans (polledOnce_iff.mp hpolled k)

omit hpolled

variable (hs : Keyed env.platform s)
include hs

include hpolled

/-- A new entry is polled if its request could be submitted. -/
theorem Keyed.polledOnce_opened {sub : Subscription} (hnone : s.subscriptions.find? key = none)
    (hcmd : sub.request.command = .subscribe)
    (hkey : subscriptionKey env.platform sub.request.topic = .ok key)
    (h : Submitted (s.setSubscription key sub) (record env sub.request) s') :
    PolledOnce s' ↔ 0 ≤ s.nextStreamId := by
  have hcounts := polledOnce_iff.mp hpolled
  have hcnt : ∀ k, s'.pollCount k = s.pollCount k + if 0 ≤ s.nextStreamId ∧ k = key then 1
      else 0 :=
    (hs.setSubscription hcmd hkey).pollCount_submitted (isPoll_record hcmd hkey) h.requests
  have hself : s'.pollCount key = if 0 ≤ s.nextStreamId then 1 else 0 := by
    have hzero : s.pollCount key = 0 := by
      rw [hcounts, hnone]
      rfl
    rw [hcnt, hzero, zero_add]
    simp
  rw [polledOnce_iff, h.subscriptions]
  constructor
  · intro hafter
    by_contra hfailed
    have hactive := hafter key
    rw [hself, if_neg hfailed, find?_setSubscription, if_pos rfl] at hactive
    cases hactive
  · intro hok k
    by_cases hk : k = key
    · rw [hk, hself, if_pos hok, find?_setSubscription, if_pos rfl]
      rfl
    · rw [hcnt, if_neg fun h => hk h.2, add_zero, hcounts, find?_setSubscription, if_neg hk]

variable {out : List Output}

include hrr

/-- A response to a poll. -/
theorem Keyed.polledOnce_processResponse (hcmd : rr.request.command = .subscribe)
    (h : s.processResponse env streamId = some (s', out)) : PolledOnce s' ↔
      if rr.responseStatus = str "302" then
        (∃ index, redirectIndex env.platform rr.location = .ok index) ∧ 0 ≤ s.nextStreamId
      else rr.timedOut = none ∧ rr.endsSubscription = true ∨ 0 ≤ s.nextStreamId := by
  obtain ⟨_, hsub⟩ := hpolled.active streamId rr hrr hcmd
  rcases processResponse_eq_some hrr h with
    ⟨hstatus, error, herror, rfl, -⟩ | ⟨hstatus, index, s₁, hidx, hsent, rfl⟩ |
    ⟨hstatus, s₁, hrespond, rfl⟩
  · -- a redirect that cannot be read
    rw [if_pos hstatus, herror]
    exact iff_of_false (not_polledOnce_of_erased hpolled hrr hcmd) (by simp)
  · rw [if_pos hstatus, hidx, and_iff_right ⟨index, rfl⟩]
    exact (hs.sendLongPollRequests hsub hsent).polledOnce_iff hs hpolled hrr hcmd
  · rw [if_neg hstatus]
    unfold Session.respond at hrespond
    cases htimedOut : rr.timedOut with
    | some index =>
      rw [htimedOut] at hrespond
      rw [(hs.sendLongPollRequests hsub hrespond).polledOnce_iff hs hpolled hrr hcmd]
      simp
    | none =>
      rw [htimedOut] at hrespond
      rw [if_pos hcmd] at hrespond
      rcases hs.processUpdate hsub hrespond with ⟨hends, rfl⟩ | ⟨hends, hrepolled⟩
      · exact iff_of_true (polledOnce_of_ended hpolled hrr hcmd) (inl ⟨rfl, hends⟩)
      · rw [hrepolled.polledOnce_iff hs hpolled hrr hcmd, hends]
        simp

omit hrr

include hother

/-- Other records are filed under no subscription, so nothing is polled for
them. -/
theorem Keyed.polledOnce_processResponse_other
    (h : s.processResponse env streamId = some (s', out)) : PolledOnce s' := by
  cases hrr : s.requestsByStreamId.find? streamId with
  | none =>
    rw [Session.processResponse, hrr] at h
    exact (mk.inj (some.inj h)).1 ▸ hpolled
  | some rr =>
    have hnone : s.subscriptions.find? rr.normalizedTopic = none := by
      rw [hs.other streamId rr hrr (hother rr hrr)]
      refine eq_none_iff_forall_ne_some.mpr fun sub hsub => ?_
      exact subscriptionKey_ne_nil (hs.key [] sub hsub).2 rfl
    rcases processResponse_eq_some hrr h with
      ⟨-, error, -, rfl, -⟩ | ⟨-, index, s₁, -, hsent, rfl⟩ | ⟨-, s₁, hrespond, rfl⟩
    · exact polledOnce_of_erased hpolled hother
    · obtain rfl := sendLongPollRequests_of_none hnone hsent
      exact polledOnce_of_erased hpolled hother
    · unfold Session.respond at hrespond
      split at hrespond
      · obtain rfl := sendLongPollRequests_of_none hnone hrespond
        exact polledOnce_of_erased hpolled hother
      · rw [if_neg (hother rr hrr)] at hrespond
        cases hrespond
        exact polledOnce_of_erased hpolled hother

omit hother

theorem Keyed.polledOnce_receive {event : StreamEvent} (h : s.receive env event = some (s', out)) :
    PolledOnce s' ↔ KeepsPolling env.platform s (.stream event) := by
  cases event with
  | header streamId name value =>
    refine iff_of_true ?_ trivial
    rcases (receive_header h).1 with rfl | ⟨f, rfl, hf⟩
    · exact hpolled
    · exact hpolled.updateRecord streamId hf
  | data streamId data =>
    cases h
    exact iff_of_true (hpolled.updateRecord streamId fun _ => ⟨rfl, rfl⟩) trivial
  | endStream streamId =>
    by_cases hother : ∀ rr, s.requestsByStreamId.find? streamId = some rr →
        rr.request.command ≠ .subscribe
    · refine iff_of_true (hs.polledOnce_processResponse_other hpolled hother h) ?_
      exact fun rr hrr hcmd => absurd hcmd (hother rr hrr)
    · push Not at hother
      obtain ⟨rr, hrr, hcmd⟩ := hother
      rw [hs.polledOnce_processResponse hpolled hrr hcmd h]
      refine ⟨fun hkeeps rr' hrr' _ => ?_, fun hkeeps => hkeeps rr hrr hcmd⟩
      obtain rfl := some.inj (hrr.symm.trans hrr')
      exact hkeeps
  | close streamId =>
    cases h
    refine ⟨fun hafter rr hrr hcmd => ?_, fun hother => polledOnce_of_erased hpolled hother⟩
    exact not_polledOnce_of_erased hpolled hrr hcmd hafter

theorem Keyed.polledOnce_step {e : SessionEvent} (hallowed : e.Allowed s)
    (h : s.step env e = some (s', out)) : PolledOnce s' ↔ KeepsPolling env.platform s e := by
  cases e with
  | start command mode =>
    have hcmd : command.command = .subscribe := hallowed
    rcases startSubscription_eq_some h with
      ⟨hclosed, rfl⟩ | ⟨hclosed, key, old, sub, hold, -, -, rfl⟩ |
      ⟨hopens, key, sub, hnone, hsub, hkey, hsubmitted⟩
    · exact iff_of_true hpolled fun hopens => absurd hopens hclosed
    · exact iff_of_true (hpolled.setSubscription hold) fun hopens => absurd hopens hclosed
    · rw [hs.polledOnce_opened hpolled hnone (hsub.trans hcmd) hkey hsubmitted]
      exact ⟨fun hok _ => hok, fun hkeeps => hkeeps hopens⟩
  | stop command =>
    have hstop : PolledOnce (s.stopSubscription env command).1 :=
      hpolled.stopSubscription command
    rw [some.inj h] at hstop
    exact iff_of_true hstop trivial
  | stream event => exact hs.polledOnce_receive hpolled h

omit hpolled hs

theorem PolledOnce.init (library : Library) : PolledOnce { library } := by
  constructor
  all_goals
    intro _ _ h
    cases h

/-- As long as no step loses a poll, every subscription is polled. -/
theorem polledOnce_of_run {library : Library} {trace : List (SessionEvent × List Output)}
    (h : Run (Session.step env) (fun s e => e.Allowed s ∧ KeepsPolling env.platform s e)
      { library } trace s) : PolledOnce s := by
  refine (h.invariant (I := fun _ s => Keyed env.platform s ∧ PolledOnce s)
    ⟨Keyed.init _ _, PolledOnce.init _⟩ ?_).2
  rintro trace s e _ _ ⟨hs, hpolled⟩ ⟨hallowed, hkeeps⟩ hstep
  exact ⟨hs.step hallowed hstep, (hs.polledOnce_step hpolled hallowed hstep).mpr hkeeps⟩

/-- A step keeps every subscription polled exactly if it keeps polling. -/
theorem polledOnce_step_iff {library : Library} {trace : List (SessionEvent × List Output)}
    {e : SessionEvent} {out : List Output}
    (hrun : Run (Session.step env) (fun s e => e.Allowed s) { library } trace s)
    (hpolled : PolledOnce s) (hallowed : e.Allowed s) (hstep : s.step env e = some (s', out)) :
    PolledOnce s' ↔ KeepsPolling env.platform s e :=
  (keyed_of_run hrun).polledOnce_step hpolled hallowed hstep

end

/-! ## A subscription that is no longer polled -/

def newsCommand : ClientCommand where
  command := .subscribe
  topic :=
    { str := str "http://one/news"
      parts := { scheme := str "http", authority := str "one", path := str "/news" }
      parsed := by decide +kernel }
  callback := some 0

theorem queryParamMap_news : newsCommand.topic.queryParamMap = .ok ∅ := by
  show parseParams .strict [] ∅ = .ok ∅
  rw [parseParams]
  rfl

def newsTopic : Topic := { service := str "/news", params := ∅, valid := isValidServiceName_news }

theorem fromMdpTopic_newsCommand : Topic.fromMdpTopic newsCommand.topic = .ok newsTopic := by
  rw [Topic.fromMdpTopic, queryParamMap_news]
  decide +kernel

theorem subscriptionKey_news :
    subscriptionKey inOrder newsCommand.topic = .ok (str "/news#") := by
  have hqry : newsCommand.topic.queryParamMap.mapError TopicError.uri = .ok ∅ := by
    rw [queryParamMap_news]
    rfl
  have hbuild : ((ofUri newsCommand.topic).setQuery ∅).build inOrder =
      .ok newsCommand.topic := Uri.ofBytes_str newsCommand.topic
  have hrebuilt : (((ofUri newsCommand.topic).setQuery ∅).build
      inOrder).mapError TopicError.uri = .ok newsCommand.topic := by
    rw [hbuild]
    rfl
  have hkey : newsTopic.toZmqTopic = str "/news#" := by decide +kernel
  rw [← hkey]
  exact bind_eq_ok.mpr ⟨∅, hqry, bind_eq_ok.mpr ⟨newsCommand.topic, hrebuilt,
    bind_eq_ok.mpr ⟨newsTopic, fromMdpTopic_newsCommand, rfl⟩⟩⟩

def newsPolled : Uri .strict :=
  { str := str "http://one/news?LongPollingIdx=Next"
    parts :=
      { scheme := str "http", authority := str "one", path := str "/news"
        query := str "LongPollingIdx=Next" }
    parsed := by decide +kernel }

/-- The subscription is polled on the first stream. -/
def newsSession : Session where
  library := { oddStreams with submitted := 1 }
  subscriptions := insert ∅ (str "/news#")
    { request := newsCommand, mode := .next, callbacks := [some 0] }
  requestsByStreamId := tryEmplace ∅ 1
    { request := newsCommand, normalizedTopic := str "/news#" }

def newsPoll : Output :=
  .submitted 1 (str "GET") (str "/news?LongPollingIdx=Next") [] []

theorem newsSession_started :
    Session.step plainEnvironment { library := oddStreams } (.start newsCommand .next) =
      some (newsSession, [newsPoll]) := by
  have htake : takeInitialLongPollingIndex inOrder newsCommand.topic .next =
      .ok (none, newsCommand.topic, .next) := by
    rw [takeInitialLongPollingIndex, queryParamMap_news]
    rfl
  have hbatch : usesLongPollingBatch newsCommand.topic = .ok false := by
    rw [usesLongPollingBatch, queryParamMap_news]
    rfl
  have htopic : polledTopic inOrder newsCommand.topic (pollParameter .next none) =
      .ok newsPolled := by
    have htext : ((ofUri newsCommand.topic).addQueryParameter kIndexParameter
        (some (str "Next"))).toString inOrder = newsPolled.str := by decide +kernel
    show build inOrder _ = _
    rw [build, htext]
    exact Uri.ofBytes_str newsPolled
  have hrecord : record plainEnvironment newsCommand =
      { request := newsCommand, normalizedTopic := str "/news#" } := by
    have hkey : normalizedTopic inOrder newsCommand = str "/news#" := by
      rw [normalizedTopic, if_pos (by rfl), subscriptionKey_news]
    show RequestResponse.mk newsCommand (normalizedTopic inOrder newsCommand) _ _ _ _ _ = _
    rw [hkey]
  have hpath : relativeRefNoFragment newsPolled = some (str "/news?LongPollingIdx=Next") := by
    decide +kernel
  have hplatform : plainEnvironment.platform = inOrder := rfl
  show startSubscription plainEnvironment _ newsCommand .next = _
  rw [startSubscription, hplatform, htake]
  dsimp only
  rw [hbatch, subscriptionKey_news]
  dsimp only
  have hnone : (∅ : SortedMap Bytes Subscription).find? (str "/news#") = none := rfl
  rw [hnone]
  unfold submitRequest
  rw [hplatform, htopic, hrecord]
  dsimp only
  rw [hpath]
  rfl

theorem newsSession_allowed :
    SessionEvent.Allowed { library := oddStreams } (.start newsCommand .next) := rfl

/-- The server resets the stream of the poll: the entry stays and is never polled
again. -/
theorem closed_poll_not_repeated :
    let s := newsSession.eraseRequest 1
    Run (Session.step plainEnvironment) (fun s e => e.Allowed s) { library := oddStreams }
      [(.start newsCommand .next, [newsPoll]), (.stream (.close 1), [])] s ∧
    (s.subscriptions.find? (str "/news#")).isSome = true ∧ s.polls (str "/news#") = [] ∧
    ¬PolledOnce s := by
  intro s
  have hactive : (s.subscriptions.find? (str "/news#")).isSome = true := by decide +kernel
  have hpolls : s.polls (str "/news#") = [] := by decide +kernel
  refine ⟨?_, hactive, hpolls, fun hpolled => ?_⟩
  · have hknown : SessionEvent.Allowed newsSession (.stream (.close 1)) := by
      intro k hk
      have hpos : 1 ≤ k := hk
      show (2 * k + 1 : Int) ≠ 1
      omega
    have hstarted : Run (Session.step plainEnvironment) (fun s e => e.Allowed s)
        { library := oddStreams } [(.start newsCommand .next, [newsPoll])] newsSession :=
      Run.nil.snoc newsSession_allowed newsSession_started
    exact hstarted.snoc hknown rfl
  · obtain ⟨sub, hsub⟩ := isSome_iff_exists.mp hactive
    have hone := hpolled.one _ sub hsub
    rw [hpolls] at hone
    cases hone

theorem polledOnce_step_iff_started :
    KeepsPolling Platform.inOrder { library := oddStreams } (.start newsCommand .next) ∧
      PolledOnce newsSession := by
  have hkeeps : KeepsPolling Platform.inOrder { library := oddStreams }
      (.start newsCommand .next) := fun _ => by decide
  exact ⟨hkeeps, (polledOnce_step_iff Run.nil (PolledOnce.init oddStreams)
    newsSession_allowed newsSession_started).mpr hkeeps⟩

theorem polledOnce_of_run_started : PolledOnce newsSession :=
  polledOnce_of_run (Run.nil.snoc ⟨newsSession_allowed, fun _ => by decide⟩ newsSession_started)

end OpenCmw.RestClient
