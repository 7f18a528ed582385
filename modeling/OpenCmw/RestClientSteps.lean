import OpenCmw.RestClient

/-!
# Steps of a REST client session

`StreamEvent` is what the HTTP/2 library reports about a stream; a session
takes it with `receive`. The lemmas below say once what a submission, a header
and a completed response can do to a session. Records are filed under streams
that the library will not name again (`Numbered`), so a submission never meets
an old record.
-/

namespace OpenCmw.RestClient

open Or (inl inr)
open LongPolling Option SortedMap

/-- What the library reports about a stream. -/
inductive StreamEvent where
  | header (streamId : Int) (name value : Bytes)
  | data (streamId : Int) (data : Bytes)
  | endStream (streamId : Int)
  | close (streamId : Int)
  deriving DecidableEq

def StreamEvent.streamId : StreamEvent → Int
  | .header streamId _ _ | .data streamId _ | .endStream streamId | .close streamId => streamId

/-- The callbacks of the library. -/
def Session.receive (env : Environment) (s : Session) :
    StreamEvent → Option (Session × List Output)
  | .header streamId name value =>
    match s.addHeader streamId name value with
    | some s => some (s, [])
    | none => some (s, [.rejected streamId])
  | .data streamId data => some (s.addData streamId data, [])
  | .endStream streamId => s.processResponse env streamId
  | .close streamId => some (s.eraseRequest streamId, [])

/-- The library will not give this stream to a later request. -/
def Session.Known (s : Session) (streamId : Int) : Prop :=
  ∀ k, s.library.submitted ≤ k → s.library.results k ≠ streamId

/-- Records are filed under streams that were opened. -/
def Session.Numbered (s : Session) : Prop :=
  ∀ streamId rr, s.requestsByStreamId.find? streamId = some rr → s.Known streamId

/-- The records after a submission: the library may name no stream for it. -/
def Session.filed (s : Session) (rr : RequestResponse) : SortedMap Int RequestResponse :=
  if 0 ≤ s.nextStreamId then s.requestsByStreamId.tryEmplace s.nextStreamId rr
  else s.requestsByStreamId

/-- What a submission changes. -/
structure Submitted (s : Session) (rr : RequestResponse) (s' : Session) : Prop where
  results : s'.library.results = s.library.results
  submitted : s'.library.submitted = s.library.submitted + 1
  subscriptions : s'.subscriptions = s.subscriptions
  requests : s'.requestsByStreamId =
    if 0 ≤ s.nextStreamId then s.requestsByStreamId.tryEmplace s.nextStreamId rr
    else s.requestsByStreamId

section
variable {env : Environment} {s s' : Session} {out : List Output} {rr : RequestResponse}
  {streamId : Int}

/-! ## Streams -/

/-- The stream of the next request has no record yet. -/
theorem Session.Numbered.fresh (hs : s.Numbered) :
    s.requestsByStreamId.find? s.nextStreamId = none := by
  cases hfind : s.requestsByStreamId.find? s.nextStreamId with
  | none => rfl
  | some rr => exact absurd rfl (hs _ _ hfind _ le_rfl)

theorem Session.Numbered.of_subset (hs : s.Numbered) (hlibrary : s'.library = s.library)
    (hreqs : ∀ streamId rr, s'.requestsByStreamId.find? streamId = some rr →
      s.requestsByStreamId.find? streamId = some rr) : s'.Numbered := by
  intro streamId rr h
  unfold Session.Known
  rw [hlibrary]
  exact hs streamId rr (hreqs streamId rr h)

/-- What holds of a new record and is kept by the change holds of all records. -/
theorem forall_updateRecord {P : RequestResponse → Prop} {f : RequestResponse → RequestResponse}
    (hnew : P {}) (hf : ∀ rr, P rr → P (f rr))
    (h : ∀ id rr, s.requestsByStreamId.find? id = some rr → P rr) :
    ∀ id rr, (s.updateRecord streamId f).requestsByStreamId.find? id = some rr → P rr := by
  intro id rr hrr
  by_cases hid : id = streamId
  · subst hid
    rw [Session.updateRecord, find?_insert_self] at hrr
    cases hrr
    refine hf _ ?_
    cases hfind : s.requestsByStreamId.find? id with
    | none => exact hnew
    | some rr => exact h id rr hfind
  · rw [Session.updateRecord, find?_insert_of_ne _ _ hid] at hrr
    exact h id rr hrr

theorem Session.Numbered.updateRecord (hs : s.Numbered) (hknown : s.Known streamId)
    (f : RequestResponse → RequestResponse) : (s.updateRecord streamId f).Numbered := by
  intro id rr h
  by_cases hid : id = streamId
  · exact hid ▸ hknown
  · rw [Session.updateRecord, find?_insert_of_ne _ _ hid] at h
    exact hs id rr h

/-- A record found after a submission is the new one or was there. -/
theorem find?_of_submission (hreqs : s'.requestsByStreamId = s.filed rr)
    {rr' : RequestResponse} (h : s'.requestsByStreamId.find? streamId = some rr') :
    s.requestsByStreamId.find? streamId = some rr' ∨
      (0 ≤ s.nextStreamId ∧ streamId = s.nextStreamId ∧ rr' = rr) := by
  rw [hreqs, Session.filed] at h
  split_ifs at h with hok
  · rcases find?_tryEmplace h with hbef | ⟨hid, hrr⟩
    · exact inl hbef
    · exact inr ⟨hok, hid, hrr⟩
  · exact inl h

/-- A stream is named once. -/
theorem Session.Numbered.of_submission (hs : s.Numbered)
    (hresults : s'.library.results = s.library.results)
    (hsub : s'.library.submitted = s.library.submitted + 1)
    (hreqs : s'.requestsByStreamId = s.filed rr) : s'.Numbered := by
  intro streamId rr' h k hk heq
  rw [hresults] at heq
  rcases find?_of_submission hreqs h with hbef | ⟨hok, rfl, -⟩
  · exact hs streamId rr' hbef k (by omega) heq
  · have hsame := s.library.distinct _ _ hok heq.symm
    omega

/-- What is summed over the records grows by the new one. -/
theorem Session.Numbered.total_submission (hs : s.Numbered)
    (hreqs : s'.requestsByStreamId = s.filed rr) (g : RequestResponse → Nat) :
    s'.requestsByStreamId.total g =
      s.requestsByStreamId.total g + if 0 ≤ s.nextStreamId then g rr else 0 := by
  rw [hreqs, Session.filed]
  by_cases hok : 0 ≤ s.nextStreamId
  · have htotal := s.requestsByStreamId.total_insert s.nextStreamId rr g
    rw [hs.fresh, elim_none] at htotal
    rw [if_pos hok, if_pos hok, tryEmplace_of_none hs.fresh]
    exact htotal
  · rw [if_neg hok, if_neg hok, Nat.add_zero]

/-- The record of a stream is changed; one that was not there counts as a
default one. -/
theorem total_updateRecord (s : Session) (streamId : Int) {f : RequestResponse → RequestResponse}
    {g : RequestResponse → Nat} (hf : ∀ rr, g (f rr) = g rr) (hnew : g {} = 0) :
    (s.updateRecord streamId f).requestsByStreamId.total g = s.requestsByStreamId.total g := by
  have htotal := s.requestsByStreamId.total_insert streamId
    (f ((s.requestsByStreamId.find? streamId).getD {})) g
  rw [hf] at htotal
  cases hfind : s.requestsByStreamId.find? streamId with
  | none =>
    rw [hfind, elim_none, getD_none, hnew] at htotal
    rw [Session.updateRecord, hfind]
    exact htotal
  | some rr =>
    rw [hfind, elim_some, getD_some] at htotal
    rw [Session.updateRecord, hfind]
    exact Nat.add_right_cancel htotal

/-! ## Submissions -/

theorem find?_setSubscription (s : Session) (zmqTopic key : Bytes) (sub : Subscription) :
    (s.setSubscription zmqTopic sub).subscriptions.find? key =
      if key = zmqTopic then some sub else s.subscriptions.find? key := by
  split_ifs with hkey
  · rw [hkey]
    exact find?_insert_self ..
  · exact find?_insert_of_ne _ _ hkey

/-- What a submission changes and what it puts out. -/
theorem submitRequest_eq_some {cmd : ClientCommand} {mode : SubscriptionMode} {mime : Bytes}
    {longPollIdx : Option UInt64}
    (h : s.submitRequest env cmd mode mime longPollIdx = some (s', out)) :
    Submitted s (Session.record env cmd) s' ∧
    ((0 ≤ s.nextStreamId ∧ ∃ method path body,
      out = [.submitted s.nextStreamId method path mime body]) ∨
    (s.nextStreamId < 0 ∧ out = (Session.record env cmd).reportError
      (str "Could not submit request: " ++ env.strerror s.nextStreamId))) := by
  unfold Session.submitRequest at h
  split at h
  · cases h
  · dsimp only at h
    by_cases hfailed : s.nextStreamId < 0
    · rw [if_pos hfailed] at h
      cases h
      exact ⟨⟨rfl, rfl, rfl, (if_neg (not_le.mpr hfailed)).symm⟩, inr ⟨hfailed, rfl⟩⟩
    · rw [if_neg hfailed] at h
      cases h
      have hok := not_lt.mp hfailed
      exact ⟨⟨rfl, rfl, rfl, (if_pos hok).symm⟩, inl ⟨hok, _, _, _, rfl⟩⟩

/-! ## Headers and responses -/

/-- A header or data changes one record and keeps what it is filed under. -/
theorem addHeader_eq_some {name value : Bytes} (h : s.addHeader streamId name value = some s') :
    s' = s ∨ ∃ f : RequestResponse → RequestResponse, s' = s.updateRecord streamId f ∧
      ∀ rr, (f rr).request = rr.request ∧ (f rr).normalizedTopic = rr.normalizedTopic := by
  unfold Session.addHeader at h
  split_ifs at h
  · exact inr ⟨_, (some.inj h).symm, fun _ => ⟨rfl, rfl⟩⟩
  · exact inr ⟨_, (some.inj h).symm, fun _ => ⟨rfl, rfl⟩⟩
  · split at h
    · exact inr ⟨_, (some.inj h).symm, fun _ => ⟨rfl, rfl⟩⟩
    · cases h
  · exact inr ⟨_, (some.inj h).symm, fun _ => ⟨rfl, rfl⟩⟩
  · split at h
    · exact inr ⟨_, (some.inj h).symm, fun _ => ⟨rfl, rfl⟩⟩
    · cases h
  · exact inl (some.inj h).symm

/-- What a header or data does. -/
theorem receive_header {name value : Bytes}
    (h : s.receive env (.header streamId name value) = some (s', out)) :
    (s' = s ∨ ∃ f : RequestResponse → RequestResponse, s' = s.updateRecord streamId f ∧
      ∀ rr, (f rr).request = rr.request ∧ (f rr).normalizedTopic = rr.normalizedTopic) ∧
    (out = [] ∨ out = [.rejected streamId]) := by
  unfold Session.receive at h
  dsimp only at h
  split at h
  · rename_i s₁ hhdr
    cases h
    exact ⟨addHeader_eq_some hhdr, inl rfl⟩
  · cases h
    exact ⟨inl rfl, inr rfl⟩

theorem processResponse_eq_some (hrr : s.requestsByStreamId.find? streamId = some rr)
    (h : s.processResponse env streamId = some (s', out)) :
    (rr.responseStatus = str "302" ∧ ∃ error, redirectIndex env.platform rr.location = .error error ∧
      s' = s.eraseRequest streamId ∧ out = rr.reportError error ++ [.rejected streamId]) ∨
    (rr.responseStatus = str "302" ∧ ∃ index s₁, redirectIndex env.platform rr.location = .ok index ∧
      s.sendLongPollRequests env rr.normalizedTopic index index = some (s₁, out) ∧
      s' = s₁.eraseRequest streamId) ∨
    (rr.responseStatus ≠ str "302" ∧ ∃ s₁, s.respond env rr = some (s₁, out) ∧
      s' = s₁.eraseRequest streamId) := by
  unfold Session.processResponse at h
  rw [hrr] at h
  dsimp only at h
  by_cases hredir : rr.responseStatus = str "302"
  · rw [if_pos hredir] at h
    cases hidx : redirectIndex env.platform rr.location with
    | error error =>
      rw [hidx] at h
      cases h
      exact inl ⟨hredir, error, rfl, rfl, rfl⟩
    | ok index =>
      rw [hidx] at h
      obtain ⟨⟨s₁, out₁⟩, hsend, heq⟩ := map_eq_some_iff.mp h
      cases heq
      exact inr (inl ⟨hredir, index, s₁, rfl, hsend, rfl⟩)
  · rw [if_neg hredir] at h
    obtain ⟨⟨s₁, out₁⟩, hrespond, heq⟩ := map_eq_some_iff.mp h
    cases heq
    exact inr (inr ⟨hredir, s₁, hrespond, rfl⟩)

theorem sendLongPollRequests_of_none {key : Bytes} {index : UInt64}
    (hsub : s.subscriptions.find? key = none)
    (h : s.sendLongPollRequests env key index index = some (s', out)) : s' = s := by
  rw [Session.sendLongPollRequests, hsub] at h
  exact (Prod.mk.inj (some.inj h)).1.symm

end

end OpenCmw.RestClient
