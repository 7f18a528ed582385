import OpenCmw.RestWorker

/-!
# Replies of the REST client

Over GET and SET commands, each named by its number: a callback is called at
most once, and its request waits in a session until then - unless a step drops
the record without a call. The steps that drop one are those of `lost`: a
stream that is closed before its response is complete, a response that is taken
for one of a long poll, and a session whose connection fails while it reads or
writes.

What was called, what waits and what is lost add up (`Worker.Sound.step`);
everything else is arithmetic.
-/

namespace OpenCmw.RestClient

open Worker
open Session (record)
open List Option Nat

def Output.isReply (n : Nat) : Output → Bool
  | .reply callback _ => callback == n
  | _ => false

/-- How often the callback of the n-th command was called. -/
def callCount (n : Nat) (trace : List (WorkerEvent × List Output)) : Nat :=
  (trace.flatMap (·.2)).countP (Output.isReply n)

variable (w : Worker)

/-- The request of the n-th command has a record. -/
def Pending (n : Nat) : Prop :=
  ∃ endpoint session streamId rr, w.sessions.lookup endpoint = some session ∧
    session.requestsByStreamId.find? streamId = some rr ∧ rr.request.callback = some n

/-- The response is taken for that of a long poll: a redirect whose index can
be read, or a timeout with an index. -/
def RequestResponse.repolls (platform : Platform) (rr : RequestResponse) : Bool :=
  if rr.responseStatus = str "302" then (redirectIndex platform rr.location).isOk
  else rr.timedOut.isSome

/-- GET and SET commands with callbacks, and a library that names no stream
before it is opened. -/
def OnlyRequests : WorkerEvent → Prop
  | .command cmd _ => (cmd.command = .get ∨ cmd.command = .set) ∧ cmd.callback = some w.handled
  | .stream endpoint event =>
    ∀ session, w.sessions.lookup endpoint = some session → session.Known event.streamId
  | _ => True

/-- No record with a callback is dropped without a call. -/
def KeepsRequests (platform : Platform) (w : Worker) : WorkerEvent → Prop
  | .stream endpoint (.endStream streamId) => ∀ session rr,
      w.sessions.lookup endpoint = some session →
      session.requestsByStreamId.find? streamId = some rr → rr.repolls platform = true →
      rr.request.callback = none
  | .stream endpoint (.close streamId) => ∀ session rr, w.sessions.lookup endpoint = some session →
      session.requestsByStreamId.find? streamId = some rr → rr.request.callback = none
  | .writeFailed endpoint | .readFailed endpoint => ∀ session streamId rr,
      w.sessions.lookup endpoint = some session →
      session.requestsByStreamId.find? streamId = some rr → rr.request.callback = none
  | _ => True

/-! ## Counting -/

def requestWeight (n : Nat) (rr : RequestResponse) : Nat :=
  if rr.request.callback = some n then 1 else 0

def Session.requestCount (s : Session) (n : Nat) : Nat :=
  s.requestsByStreamId.total (requestWeight n)

def Worker.pendingCount (n : Nat) : Nat :=
  UMap.total (fun session => session.requestCount n) w.sessions

variable {n : Nat} {rr : RequestResponse}

theorem requestWeight_pos_iff : 0 < requestWeight n rr ↔ rr.request.callback = some n := by
  unfold requestWeight
  split_ifs with h <;> simp [h]

theorem requestCount_pos_iff {s : Session} : 0 < s.requestCount n ↔ ∃ streamId rr,
      s.requestsByStreamId.find? streamId = some rr ∧ rr.request.callback = some n := by
  simp only [Session.requestCount, SortedMap.total_pos_iff, requestWeight_pos_iff]

theorem requestWeight_eq_zero_iff : (∀ n, requestWeight n rr = 0) ↔ rr.request.callback = none := by
  constructor
  · intro h
    refine eq_none_iff_forall_ne_some.mpr fun n hn => ?_
    exact (requestWeight_pos_iff.mpr hn).ne' (h n)
  · intro h n
    rw [requestWeight, h]
    rfl

theorem requestCount_eq_zero_iff {s : Session} : (∀ n, s.requestCount n = 0) ↔
    ∀ streamId rr, s.requestsByStreamId.find? streamId = some rr → rr.request.callback = none := by
  constructor
  · intro h streamId rr hrr
    refine eq_none_iff_forall_ne_some.mpr fun n hn => ?_
    exact (requestCount_pos_iff.mpr ⟨streamId, rr, hrr, hn⟩).ne' (h n)
  · intro h n
    by_contra hne
    obtain ⟨streamId, rr, hrr, hn⟩ := requestCount_pos_iff.mp (pos_of_ne_zero hne)
    rw [h streamId rr hrr] at hn
    cases hn

theorem pending_iff {w : Worker} : Pending w n ↔ 0 < w.pendingCount n := by
  unfold pendingCount
  rw [UMap.total_pos_iff]
  simp only [requestCount_pos_iff]
  constructor
  · rintro ⟨endpoint, session, streamId, rr, hsess, hrr, hcb⟩
    exact ⟨endpoint, session, hsess, streamId, rr, hrr, hcb⟩
  · rintro ⟨endpoint, session, hsess, streamId, rr, hrr, hcb⟩
    exact ⟨endpoint, session, streamId, rr, hsess, hrr, hcb⟩

theorem callCount_snoc (n : Nat) (trace : List (WorkerEvent × List Output)) (e : WorkerEvent)
    (out : List Output) :
    callCount n (trace ++ [(e, out)]) = callCount n trace + out.countP (Output.isReply n) := by
  simp [callCount]

/-- A reply was put out. -/
theorem countP_isReply_pos {out : List Output} :
    0 < out.countP (Output.isReply n) ↔ ∃ message, Output.reply n message ∈ out := by
  rw [countP_pos_iff]
  constructor
  · rintro ⟨o, ho, hreply⟩
    cases o with
    | reply callback message =>
      obtain rfl := beq_iff_eq.mp hreply
      exact ⟨message, ho⟩
    | _ => cases hreply
  · rintro ⟨message, hmem⟩
    exact ⟨_, hmem, beq_self_eq_true n⟩

theorem countP_call (hcmd : rr.request.command ≠ .subscribe)
    (message : BrokerMessage) (n : Nat) :
    (rr.call message).countP (Output.isReply n) = requestWeight n rr := by
  unfold RequestResponse.call requestWeight
  cases rr.request.callback with
  | none => rfl
  | some m =>
    dsimp only
    rw [if_neg hcmd, countP_singleton]
    simp [Output.isReply]

/-! ## Sessions -/

/-- A session without subscriptions. -/
structure Plain (s : Session) : Prop where
  subscriptions : s.subscriptions = ∅
  command : ∀ streamId rr, s.requestsByStreamId.find? streamId = some rr →
    rr.request.command ≠ .subscribe
  numbered : s.Numbered

section
variable {env : Environment} {s s' : Session} {out : List Output} {streamId : Int}

theorem Plain.init (library : Library) : Plain { library } := by
  refine ⟨rfl, ?_, ?_⟩
  all_goals
    intro _ _ h
    cases h

theorem Plain.eraseRequest (hs : Plain s) (streamId : Int) : Plain (s.eraseRequest streamId) :=
  ⟨hs.subscriptions, fun id rr h => hs.command id rr (SortedMap.find?_of_erase h),
    hs.numbered.of_subset rfl fun _ _ h => SortedMap.find?_of_erase h⟩

theorem requestCount_eraseRequest (s : Session) (streamId : Int) (n : Nat) :
    (s.eraseRequest streamId).requestCount n +
      (s.requestsByStreamId.find? streamId).elim 0 (requestWeight n) = s.requestCount n :=
  s.requestsByStreamId.total_erase streamId (requestWeight n)

theorem Plain.updateRecord (hs : Plain s) (hknown : s.Known streamId)
    {f : RequestResponse → RequestResponse} (hf : ∀ rr, (f rr).request = rr.request) :
    Plain (s.updateRecord streamId f) := by
  refine ⟨hs.subscriptions, forall_updateRecord (by decide) (fun rr hrr => ?_) hs.command,
    hs.numbered.updateRecord hknown f⟩
  rw [hf]
  exact hrr

theorem requestCount_updateRecord (s : Session) (streamId : Int)
    {f : RequestResponse → RequestResponse} (hf : ∀ rr, (f rr).request = rr.request) (n : Nat) :
    (s.updateRecord streamId f).requestCount n = s.requestCount n := by
  have hweight : ∀ rr, requestWeight n (f rr) = requestWeight n rr := fun rr => by
    rw [requestWeight, hf, requestWeight]
  exact total_updateRecord s streamId hweight rfl

/-- A GET or SET that is submitted waits, or is told that it could not be. -/
theorem Plain.submitRequest (hs : Plain s) {cmd : ClientCommand} {mime : Bytes} {m : Nat}
    (hcmd : cmd.command ≠ .subscribe) (hcb : cmd.callback = some m)
    (h : s.submitRequest env cmd .none mime none = some (s', out)) :
    Plain s' ∧ ∀ n, out.countP (Output.isReply n) + s'.requestCount n =
      s.requestCount n + if n = m then 1 else 0 := by
  obtain ⟨hsub, hout⟩ := submitRequest_eq_some h
  have hrecord : (record env cmd).request.command ≠ .subscribe := hcmd
  refine ⟨⟨hsub.subscriptions.trans hs.subscriptions, fun streamId rr hrr => ?_,
    hs.numbered.of_submission hsub.results hsub.submitted hsub.requests⟩,
    fun n => ?_⟩
  · rcases find?_of_submission hsub.requests hrr with hbef | ⟨-, -, rfl⟩
    · exact hs.command streamId rr hbef
    · exact hrecord
  · have hcnt : s'.requestCount n = s.requestCount n + if 0 ≤ s.nextStreamId then
        requestWeight n (record env cmd) else 0 :=
      hs.numbered.total_submission hsub.requests (requestWeight n)
    have hweight : requestWeight n (record env cmd) = if n = m then 1 else 0 := by
      unfold requestWeight record
      simp only [hcb, some.injEq, eq_comm]
    rcases hout with ⟨hok, _, _, _, rfl⟩ | ⟨hfailed, rfl⟩
    · rw [hcnt, if_pos hok, hweight, countP_singleton]
      exact zero_add _
    · rw [hcnt, if_neg (not_le.mpr hfailed), RequestResponse.reportError, countP_call hrecord,
        hweight, add_zero, add_comm]

/-- The record that is dropped without a call. -/
def Session.lost (platform : Platform) (s : Session) : StreamEvent → Option RequestResponse
  | .endStream streamId =>
    (s.requestsByStreamId.find? streamId).filter fun rr => rr.repolls platform
  | .close streamId => s.requestsByStreamId.find? streamId
  | _ => none

/-- Without subscriptions a response ends with its record erased; unless it is
taken for that of a long poll, the callback is called. -/
theorem Plain.processResponse (hs : Plain s) {rr : RequestResponse}
    (hrr : s.requestsByStreamId.find? streamId = some rr)
    (h : s.processResponse env streamId = some (s', out)) :
    s' = s.eraseRequest streamId ∧ ∀ n, out.countP (Output.isReply n) =
      if rr.repolls env.platform = true then 0 else requestWeight n rr := by
  have hcmd := hs.command streamId rr hrr
  have hsend : ∀ {key index s₁ out},
      s.sendLongPollRequests env key index index = some (s₁, out) → s₁ = s ∧ out = [] := by
    intro key index s₁ out hsend
    have hnone : s.subscriptions.find? key = none := by
      rw [hs.subscriptions]
      rfl
    rw [Session.sendLongPollRequests, hnone] at hsend
    cases hsend
    exact ⟨rfl, rfl⟩
  unfold RequestResponse.repolls
  rcases processResponse_eq_some hrr h with
    ⟨hstatus, error, herror, rfl, rfl⟩ | ⟨hstatus, index, s₁, hidx, hsent, rfl⟩ |
    ⟨hstatus, s₁, hrespond, rfl⟩
  · refine ⟨rfl, fun n => ?_⟩
    rw [if_pos hstatus, herror, countP_append, RequestResponse.reportError, countP_call hcmd]
    rfl
  · obtain ⟨rfl, rfl⟩ := hsend hsent
    refine ⟨rfl, fun n => ?_⟩
    rw [if_pos hstatus, hidx]
    rfl
  · unfold Session.respond at hrespond
    rw [if_neg hstatus]
    cases htimedOut : rr.timedOut with
    | some index =>
      rw [htimedOut] at hrespond
      obtain ⟨rfl, rfl⟩ := hsend hrespond
      exact ⟨rfl, fun n => rfl⟩
    | none =>
      rw [htimedOut] at hrespond
      rw [if_neg hcmd] at hrespond
      cases hrespond
      exact ⟨rfl, fun n => countP_call hcmd _ n⟩

/-- What was called, waits and is lost adds up. -/
theorem Plain.receive (hs : Plain s) {event : StreamEvent} (hknown : s.Known event.streamId)
    (h : s.receive env event = some (s', out)) :
    Plain s' ∧ ∀ n, out.countP (Output.isReply n) + s'.requestCount n +
      (s.lost env.platform event).elim 0 (requestWeight n) = s.requestCount n := by
  cases event with
  | header streamId name value =>
    obtain ⟨hch, hout⟩ := receive_header h
    have hcalls : ∀ n, out.countP (Output.isReply n) = 0 := by
      rcases hout with rfl | rfl <;> exact fun n => rfl
    rcases hch with rfl | ⟨f, rfl, hf⟩
    · exact ⟨hs, fun n => by rw [hcalls, zero_add]; rfl⟩
    · have hreq := fun rr => (hf rr).1
      refine ⟨hs.updateRecord hknown hreq, fun n => ?_⟩
      rw [hcalls, zero_add, requestCount_updateRecord s streamId hreq]
      rfl
  | data streamId data =>
    cases h
    refine ⟨hs.updateRecord hknown fun _ => rfl, fun n => ?_⟩
    have hcnt : (s.addData streamId data).requestCount n = s.requestCount n :=
      requestCount_updateRecord s streamId (f := fun rr => { rr with payload := rr.payload ++ data })
        (fun _ => rfl) n
    rw [hcnt]
    exact zero_add _
  | endStream streamId =>
    cases hrr : s.requestsByStreamId.find? streamId with
    | none =>
      have hresp : s.processResponse env streamId = some (s', out) := h
      rw [Session.processResponse, hrr] at hresp
      cases hresp
      refine ⟨hs, fun n => ?_⟩
      rw [Session.lost, hrr]
      exact zero_add _
    | some rr =>
      obtain ⟨rfl, hcalls⟩ := hs.processResponse hrr h
      refine ⟨hs.eraseRequest streamId, fun n => ?_⟩
      have herase := requestCount_eraseRequest s streamId n
      rw [hrr, elim_some] at herase
      rw [hcalls, Session.lost, hrr, filter_some]
      split_ifs
      · rw [elim_some, zero_add, herase]
      · rw [elim_none, add_zero, add_comm, herase]
  | close streamId =>
    cases h
    refine ⟨hs.eraseRequest streamId, fun n => ?_⟩
    rw [countP_nil, zero_add]
    exact requestCount_eraseRequest s streamId n

/-- A failure that is reported calls every callback. -/
theorem Plain.countP_reportErrorToAll (hs : Plain s) (error : Bytes) (n : Nat) :
    (s.reportErrorToAllPendingRequests error).2.countP (Output.isReply n) = s.requestCount n := by
  unfold Session.reportErrorToAllPendingRequests Session.requestCount SortedMap.total
  rw [countP_flatMap]
  refine congrArg sum (map_congr_left fun e he => ?_)
  exact countP_call (hs.command e.1 e.2 (SortedMap.find?_eq_some_iff.mpr he)) _ n

end

/-! ## The worker -/

def Worker.AllPlain : Prop :=
  ∀ endpoint session, w.sessions.lookup endpoint = some session → Plain session

/-- How many records of the n-th command are dropped without a call. -/
def Worker.lost (platform : Platform) (w : Worker) (n : Nat) : WorkerEvent → Nat
  | .stream endpoint event =>
    ((w.sessions.lookup endpoint).bind fun session => session.lost platform event).elim 0
      (requestWeight n)
  | .writeFailed endpoint | .readFailed endpoint =>
    (w.sessions.lookup endpoint).elim 0 fun session => session.requestCount n
  | _ => 0

/-- How many commands a step handles. -/
def WorkerEvent.commands : WorkerEvent → Nat
  | .command _ _ => 1
  | _ => 0

theorem WorkerEvent.commands_le_one (e : WorkerEvent) : e.commands ≤ 1 := by
  cases e with
  | command => exact le_rfl
  | _ => exact zero_le 1

structure Worker.Sound (trace : List (WorkerEvent × List Output)) (w : Worker) : Prop where
  plain : ∀ endpoint session, w.sessions.lookup endpoint = some session → Plain session
  /-- A callback waits or was called, once. -/
  once : ∀ n, callCount n trace + w.pendingCount n ≤ if n < w.handled then 1 else 0

section
variable {env : Environment} {w w' : Worker} {out : List Output} {e : WorkerEvent}
  {endpoint : Endpoint} {session : Session}

theorem pendingCount_setSession (w : Worker) (endpoint : Endpoint) (session : Session) (n : Nat) :
    (w.setSession endpoint session).pendingCount n +
      (w.sessions.lookup endpoint).elim 0 (fun session => session.requestCount n) =
    w.pendingCount n + session.requestCount n :=
  UMap.total_insert w.sessions endpoint session fun session => session.requestCount n

theorem pendingCount_eraseSession (w : Worker) (endpoint : Endpoint) (n : Nat) :
    (w.eraseSession endpoint).pendingCount n +
      (w.sessions.lookup endpoint).elim 0 (fun session => session.requestCount n) =
    w.pendingCount n :=
  UMap.total_erase w.sessions endpoint fun session => session.requestCount n

theorem plain_setSession (hw : w.AllPlain) (hsess : Plain session) :
    (w.setSession endpoint session).AllPlain := by
  intro endpoint' session' h
  rw [setSession, UMap.lookup_insert] at h
  split_ifs at h
  · cases h
    exact hsess
  · exact hw endpoint' session' h

theorem plain_eraseSession (hw : w.AllPlain) : (w.eraseSession endpoint).AllPlain := by
  intro endpoint' session' h
  rw [eraseSession, UMap.lookup_erase] at h
  split_ifs at h
  exact hw endpoint' session' h

theorem countP_reportError {cmd : ClientCommand} {m : Nat}
    (hcmd : cmd.command = .get ∨ cmd.command = .set) (hcb : cmd.callback = some m)
    (error : Bytes) (n : Nat) :
    (cmd.reportError error).countP (Output.isReply n) = if n = m then 1 else 0 := by
  unfold ClientCommand.reportError
  rw [hcb]
  dsimp only
  rw [if_pos hcmd, countP_singleton]
  by_cases hn : n = m
  · simp [Output.isReply, hn]
  · simp [Output.isReply, hn, Ne.symm hn]

/-- The session is there, or new and empty. -/
theorem ensureSession_eq_ok {topic : Uri .strict} {created : Except Bytes Library}
    (h : w.ensureSession topic created = some (.ok (endpoint, session))) :
    w.sessions.lookup endpoint = some session ∨
      (w.sessions.lookup endpoint = none ∧ ∃ library : Library, session = { library }) := by
  unfold ensureSession at h
  dsimp only at h
  split_ifs at h
  · cases h
  · cases h
  · obtain ⟨_, -, h⟩ := map_eq_some_iff.mp h
    split at h
    · rename_i session' hlook
      cases h
      exact Or.inl hlook
    · rename_i hlook
      cases created with
      | error e => cases h
      | ok library =>
        cases h
        exact Or.inr ⟨hlook, library, rfl⟩

/-- A GET or SET waits or is called. -/
theorem handleCommand_request (hw : w.AllPlain) {cmd : ClientCommand}
    {created : Except Bytes Library}
    (hcmd : cmd.command = .get ∨ cmd.command = .set) (hcb : cmd.callback = some w.handled)
    (h : w.handleCommand env cmd created = some (w', out)) :
    w'.AllPlain ∧ w'.handled = w.handled + 1 ∧
    ∀ n, out.countP (Output.isReply n) + w'.pendingCount n =
      w.pendingCount n + if n = w.handled then 1 else 0 := by
  have hrefused : ∀ error, w' = { w with handled := w.handled + 1 } → out = cmd.reportError error →
      w'.AllPlain ∧ w'.handled = w.handled + 1 ∧
      ∀ n, out.countP (Output.isReply n) + w'.pendingCount n =
        w.pendingCount n + if n = w.handled then 1 else 0 := by
    rintro error rfl rfl
    refine ⟨hw, rfl, fun n => ?_⟩
    rw [countP_reportError hcmd hcb, add_comm]
    rfl
  unfold handleCommand at h
  cases hpref : preferredMimeType w.mimeType cmd.topic with
  | error e =>
    have hout : some ({ w with handled := w.handled + 1 },
        cmd.reportError (env.platform.what (.uri e))) = some (w', out) := by
      rcases hcmd with hget | hset
      · simpa only [hget, hpref] using h
      · simpa only [hset, hpref] using h
    cases hout
    exact hrefused _ rfl rfl
  | ok preferred =>
    have hsess : withSession { w with handled := w.handled + 1 } cmd created
        (str "Could not create REST session for endpoint") (fun session =>
          session.submitRequest env cmd .none preferred none) = some (w', out) := by
      rcases hcmd with hget | hset
      · simpa only [hget, hpref] using h
      · simpa only [hset, hpref] using h
    obtain ⟨_, hfound, h⟩ := bind_eq_some_iff.mp hsess
    split at h
    · cases h
      exact hrefused _ rfl rfl
    · rename_i endpoint session
      obtain ⟨⟨session', _⟩, hsubmit, heq⟩ := map_eq_some_iff.mp h
      dsimp only at heq
      cases heq
      have hnot : cmd.command ≠ .subscribe := by
        rcases hcmd with h | h <;> rw [h] <;> decide
      have hplain : Plain session ∧ ∀ n,
          (w.sessions.lookup endpoint).elim 0 (fun session => session.requestCount n) =
            session.requestCount n := by
        rcases ensureSession_eq_ok hfound with hlook | ⟨hlook, library, rfl⟩
        · have hlook' : w.sessions.lookup endpoint = some session := hlook
          exact ⟨hw endpoint session hlook', fun n => by rw [hlook', elim_some]⟩
        · have hlook' : w.sessions.lookup endpoint = none := hlook
          exact ⟨Plain.init library, fun n => by rw [hlook']; rfl⟩
      obtain ⟨hafter, hcnt⟩ := hplain.1.submitRequest hnot hcb hsubmit
      refine ⟨plain_setSession hw hafter, rfl, fun n => ?_⟩
      have hset : (setSession { w with handled := w.handled + 1 } endpoint
          session').pendingCount n + session.requestCount n =
            w.pendingCount n + session'.requestCount n := by
        rw [← hplain.2 n]
        exact pendingCount_setSession { w with handled := w.handled + 1 } endpoint session' n
      have hn := hcnt n
      omega

/-- What was called, waits and is lost adds up. -/
theorem Worker.step_conserves (hw : w.AllPlain) (hallowed : OnlyRequests w e)
    (h : w.step env e = some (w', out)) : w'.AllPlain ∧ w'.handled = w.handled + e.commands ∧
    ∀ n, out.countP (Output.isReply n) + w'.pendingCount n + w.lost env.platform n e =
      w.pendingCount n + if n = w.handled then e.commands else 0 := by
  cases e with
  | command cmd created =>
    obtain ⟨hcmd, hcb⟩ := hallowed
    exact handleCommand_request hw hcmd hcb h
  | stream endpoint event =>
    obtain ⟨session, hsess, h⟩ := bind_eq_some_iff.mp h
    obtain ⟨⟨session', _⟩, hreceive, heq⟩ := map_eq_some_iff.mp h
    dsimp only at heq
    cases heq
    obtain ⟨hafter, hcnt⟩ := (hw endpoint session hsess).receive
      (hallowed session hsess) hreceive
    refine ⟨plain_setSession hw hafter, rfl, fun n => ?_⟩
    have hset := pendingCount_setSession w endpoint session' n
    rw [hsess, elim_some] at hset
    have hlost : w.lost env.platform n (.stream endpoint event) =
        (session.lost env.platform event).elim 0 (requestWeight n) := by
      rw [lost, hsess, bind_some]
    have hn := hcnt n
    rw [show WorkerEvent.commands _ = 0 from rfl, ite_self]
    omega
  | writeFailed endpoint | readFailed endpoint =>
    obtain ⟨session, hsess, heq⟩ := map_eq_some_iff.mp h
    cases heq
    refine ⟨plain_eraseSession hw, rfl, fun n => ?_⟩
    rw [countP_nil, zero_add, show WorkerEvent.commands _ = 0 from rfl, ite_self]
    exact pendingCount_eraseSession w endpoint n
  | pollError endpoint error | connectFailed endpoint error =>
    obtain ⟨session, hsess, heq⟩ := map_eq_some_iff.mp h
    cases heq
    refine ⟨plain_eraseSession hw, rfl, fun n => ?_⟩
    have herase := pendingCount_eraseSession w endpoint n
    rw [hsess, elim_some] at herase
    rw [(hw endpoint session hsess).countP_reportErrorToAll,
      show WorkerEvent.commands _ = 0 from rfl, ite_self]
    show _ + _ + 0 = _
    omega

variable {trace : List (WorkerEvent × List Output)}

theorem Worker.Sound.step (hw : w.Sound trace)
    (hallowed : OnlyRequests w e) (h : w.step env e = some (w', out)) :
    w'.Sound (trace ++ [(e, out)]) := by
  obtain ⟨hplain, hhandled, hcnt⟩ := step_conserves hw.plain hallowed h
  refine ⟨hplain, fun n => ?_⟩
  have honce := hw.once n
  have hn := hcnt n
  have hone := e.commands_le_one
  rw [callCount_snoc]
  split_ifs at honce hn ⊢ <;> omega

theorem Worker.sound_of_run {mimeType : Bytes}
    (h : Run (step env) OnlyRequests { mimeType } trace w) : w.Sound trace :=
  h.invariant ⟨nofun, fun _ => le_rfl⟩
    fun hw hallowed hstep => hw.step hallowed hstep

/-- A session that is erased without a report. -/
theorem erased_lost_iff {o : Option Session} : (∀ session streamId rr, o = some session →
      session.requestsByStreamId.find? streamId = some rr → rr.request.callback = none) ↔
    ∀ n, o.elim 0 (fun session => session.requestCount n) = 0 := by
  cases o with
  | none => exact iff_of_true (fun _ _ _ h => nomatch h) fun _ => rfl
  | some session =>
    simp only [elim_some]
    rw [requestCount_eq_zero_iff]
    refine ⟨fun h streamId rr => h session streamId rr rfl, fun h session' streamId rr heq => ?_⟩
    cases heq
    exact h streamId rr

/-- A record that an event of the library drops. -/
theorem record_lost_iff {o : Option Session} {f : Session → Option RequestResponse} :
    (∀ session rr, o = some session → f session = some rr → rr.request.callback = none) ↔
    ∀ n, (o.bind f).elim 0 (requestWeight n) = 0 := by
  cases o with
  | none => exact iff_of_true (fun _ _ h => nomatch h) fun _ => rfl
  | some session =>
    rw [bind_some]
    constructor
    · intro h n
      cases hrecord : f session with
      | none => rfl
      | some rr => exact requestWeight_eq_zero_iff.mpr (h session rr rfl hrecord) n
    · intro h session' rr heq hrecord
      cases heq
      rw [hrecord] at h
      exact requestWeight_eq_zero_iff.mp h

/-- Nothing is lost. -/
theorem keepsRequests_iff {platform : Platform} :
    KeepsRequests platform w e ↔ ∀ n, w.lost platform n e = 0 := by
  cases e with
  | writeFailed endpoint | readFailed endpoint => exact erased_lost_iff
  | stream endpoint event =>
    cases event with
    | endStream streamId =>
      refine Iff.trans ?_ (record_lost_iff )
      simp only [KeepsRequests, Session.lost, filter_eq_some_iff, and_imp]
    | close streamId => exact record_lost_iff
    | header streamId name value | data streamId data =>
      refine iff_of_true trivial fun n => ?_
      show ((w.sessions.lookup endpoint).bind fun _ => none).elim 0 (requestWeight n) = 0
      cases w.sessions.lookup endpoint <;> rfl
  | _ => exact iff_of_true trivial fun _ => rfl

/-- Callbacks are called at most once, and a step keeps every request or calls
its callback exactly if it drops none. -/
theorem requests_kept_iff {mimeType : Bytes} {trace : List (WorkerEvent × List Output)}
    (hrun : Run (Worker.step env) OnlyRequests { mimeType } trace w) (hallowed : OnlyRequests w e)
    (hstep : w.step env e = some (w', out)) : (∀ n, callCount n (trace ++ [(e, out)]) ≤ 1) ∧
    ((∀ n, Pending w n → Pending w' n ∨ ∃ message, Output.reply n message ∈ out) ↔
      KeepsRequests env.platform w e) := by
  have hw := Worker.sound_of_run hrun
  obtain ⟨-, -, hcnt⟩ := Worker.step_conserves hw.plain hallowed hstep
  refine ⟨fun n => ?_, ?_⟩
  · have honce := (hw.step hallowed hstep).once n
    split_ifs at honce <;> omega
  · simp only [keepsRequests_iff, pending_iff, ← countP_isReply_pos]
    refine forall_congr' fun n => ?_
    have honce : w.pendingCount n ≤ 1 := by
      have := hw.once n
      split_ifs at this <;> omega
    have hn := hcnt n
    -- a command loses nothing, and other steps open nothing
    have hcmd : w.lost env.platform n e = 0 ∨ e.commands = 0 := by
      cases e with
      | command => exact Or.inl rfl
      | _ => exact Or.inr rfl
    rcases hcmd with hzero | hnone
    · exact iff_of_true (fun hpending => by omega) hzero
    · rw [hnone, ite_self] at hn
      constructor
      · intro h
        by_contra hlost
        omega
      · intro hzero hpending
        omega

/-- As long as no step drops a request, each command waits or was called. -/
theorem answered_of_run {mimeType : Bytes} (hrun : Run (step env)
      (fun w e => OnlyRequests w e ∧ KeepsRequests env.platform w e) { mimeType } trace w)
    {n : Nat} (hn : n < w.handled) : Pending w n ∨ callCount n trace = 1 := by
  have hkept : w.Sound trace ∧ ∀ n, callCount n trace + w.pendingCount n =
      if n < w.handled then 1 else 0 := by
    refine hrun.invariant (I := fun trace w => w.Sound trace ∧ ∀ n,
      callCount n trace + w.pendingCount n = if n < w.handled then 1 else 0)
      ⟨⟨nofun, fun _ => le_rfl⟩, fun _ => rfl⟩ ?_
    rintro trace w e _ _ ⟨hw, hall⟩ ⟨hallowed, hkeeps⟩ hstep
    obtain ⟨-, hhandled, hcnt⟩ := Worker.step_conserves hw.plain hallowed hstep
    refine ⟨hw.step hallowed hstep, fun n => ?_⟩
    have hbef := hall n
    have hlost := keepsRequests_iff.mp hkeeps n
    have hafter := hcnt n
    have hone := e.commands_le_one
    rw [callCount_snoc]
    split_ifs at hbef hafter ⊢ <;> omega
  have hall := hkept.2 n
  rw [if_pos hn] at hall
  rw [pending_iff]
  omega

end

/-! ## A request without an answer -/

def getValue : ClientCommand where
  command := .get
  topic :=
    { str := str "http://one/value"
      parts := { scheme := str "http", authority := str "one", path := str "/value" }
      parsed := by decide +kernel }
  callback := some 0

def valueEndpoint : Endpoint := { scheme := str "http", host := str "one", port := 80 }

/-- The request waits on the first stream. -/
def valueSession : Session where
  library := { oddStreams with submitted := 1 }
  requestsByStreamId := SortedMap.tryEmplace ∅ 1 (record plainEnvironment getValue)

def valueWorker : Worker where
  mimeType := str "application/json"
  sessions := AList.insert valueEndpoint valueSession ∅
  handled := 1

def valueTrace : List (WorkerEvent × List Output) :=
  [(.command getValue (.ok oddStreams),
    [.submitted 1 (str "GET") (str "/value") (str "application/json") []])]

theorem valueWorker_step :
    step plainEnvironment { mimeType := str "application/json" }
      (.command getValue (.ok oddStreams)) = some (valueWorker,
        [.submitted 1 (str "GET") (str "/value") (str "application/json") []]) := by
  have hmime : preferredMimeType (str "application/json") getValue.topic =
      .ok (str "application/json") := by
    have hqry : getValue.topic.queryParamMap = .ok ∅ := by
      show parseParams .strict [] ∅ = .ok ∅
      rw [parseParams]
      rfl
    rw [preferredMimeType, hqry]
    rfl
  have hsess : ensureSession { mimeType := str "application/json", handled := 1 }
      getValue.topic (.ok oddStreams) = some (.ok (valueEndpoint, { library := oddStreams })) := by
    have hport : portOf getValue.topic = some 80 := by decide +kernel
    have hhost : (parseHost getValue.topic.parts.authority).1 = str "one" := by decide +kernel
    unfold ensureSession
    rw [if_neg (by decide +kernel), if_neg (by decide +kernel), hport, hhost]
    rfl
  have hpath : relativeRefNoFragment getValue.topic = some (str "/value") := by decide +kernel
  show handleCommand plainEnvironment _ getValue (.ok oddStreams) = _
  unfold handleCommand
  dsimp only
  rw [show getValue.command = .get from rfl]
  rw [hmime]
  dsimp only
  rw [withSession, hsess, bind_some]
  dsimp only
  rw [Session.submitRequest, show polledTopic _ getValue.topic (pollParameter .none none) =
    .ok getValue.topic from rfl]
  dsimp only
  rw [hpath]
  rfl

theorem valueWorker_allowed : OnlyRequests { mimeType := str "application/json" }
    (.command getValue (.ok oddStreams)) := ⟨Or.inl rfl, rfl⟩

theorem valueWorker_run :
    Run (step plainEnvironment) OnlyRequests { mimeType := str "application/json" }
      valueTrace valueWorker :=
  Run.nil.snoc valueWorker_allowed valueWorker_step

theorem lookup_valueEndpoint : valueWorker.sessions.lookup valueEndpoint = some valueSession :=
  AList.lookup_insert _

theorem valueWorker_pending : Pending valueWorker 0 :=
  ⟨valueEndpoint, valueSession, 1, record plainEnvironment getValue,
    lookup_valueEndpoint, rfl, rfl⟩

theorem valueWorker_known (event : StreamEvent) (h : event.streamId = 1) :
    OnlyRequests valueWorker (.stream valueEndpoint event) := by
  intro session hsess k hk
  obtain rfl := some.inj (lookup_valueEndpoint.symm.trans hsess)
  have hpos : 1 ≤ k := hk
  rw [h]
  show (2 * k + 1 : Int) ≠ 1
  omega

/-- The server resets the stream of a GET: its record goes, and the callback is
never called. -/
theorem reset_request_unanswered :
    Run (Worker.step plainEnvironment) OnlyRequests { mimeType := str "application/json" }
      valueTrace valueWorker ∧
    Pending valueWorker 0 ∧ OnlyRequests valueWorker (.stream valueEndpoint (.close 1)) ∧
    ∃ w', valueWorker.step plainEnvironment (.stream valueEndpoint (.close 1)) = some (w', []) ∧
      ¬Pending w' 0 := by
  have hstep : valueWorker.step plainEnvironment (.stream valueEndpoint (.close 1)) =
      some (valueWorker.setSession valueEndpoint (valueSession.eraseRequest 1), []) := by
    rw [Worker.step, lookup_valueEndpoint]
    rfl
  refine ⟨valueWorker_run, valueWorker_pending, valueWorker_known _ rfl, _, hstep, ?_⟩
  rw [pending_iff]
  decide +kernel

theorem requests_kept_iff_pollError :
    let e : WorkerEvent := .pollError valueEndpoint (str "gone")
    KeepsRequests Platform.inOrder valueWorker e ∧ Pending valueWorker 0 ∧
    ∃ w' out, valueWorker.step plainEnvironment e = some (w', out) ∧
      (Pending w' 0 ∨ ∃ message, Output.reply 0 message ∈ out) := by
  intro e
  have hstep : valueWorker.step plainEnvironment e = some (valueWorker.eraseSession valueEndpoint,
      (valueSession.reportErrorToAllPendingRequests (str "gone")).2) := by
    rw [Worker.step, lookup_valueEndpoint]
    rfl
  have hallowed : OnlyRequests valueWorker e := trivial
  exact ⟨trivial, valueWorker_pending, _, _, hstep,
    (requests_kept_iff valueWorker_run hallowed hstep).2.mpr trivial 0 valueWorker_pending⟩

theorem answered_of_run_waiting : Pending valueWorker 0 ∨ callCount 0 valueTrace = 1 :=
  answered_of_run (Run.nil.snoc ⟨valueWorker_allowed, trivial⟩ valueWorker_step) Nat.one_pos

end OpenCmw.RestClient
