import OpenCmw.RestSteps

/-!
# Streams that are closed

When a client cancels a request, the library reports the stream closed, and
nothing should be kept for it: a reply or a notification that comes later has
no one to go to. `stream_closed_callback` removes the pending requests and
polls of the stream - but only if a response for it is stored, which a poll
that is still waiting does not have.

`MayClose` is the condition on the session under which closing a stream is
harmless: a response is stored or nothing is pending, and no completed request
of the stream is still to be collected. In every run whose closings meet it,
nothing is pending for a closed stream and nothing is submitted to one
(`closed_streams_forgotten`). The invariant is `Forgotten`; that the library
calls back about a stream only while it is open carries it over the events
that bring requests in.

Without the condition the poll stays: `cancelled_poll_is_answered` is a run in
which a notification answers a poll on a stream that was closed before.
-/

namespace OpenCmw

open List

namespace Rest

/-- Working on the request leaves something to be answered later. -/
def Request.Registers (request : Request) : Prop :=
  request.method = .get ∨ request.method = .post ∨ request.method = .longPoll
  deriving Decidable

variable {StreamId : Type} [LinearOrder StreamId]

namespace Session

/-- The stream can be closed without leaving anything behind. -/
def MayClose (t : Session StreamId) (streamId : StreamId) : Prop :=
  ((t.responsesByStreamId.find? streamId).isSome = true ∨
    (∀ request ∈ t.pendingRequests, request.2 ≠ streamId) ∧
      ∀ poll ∈ t.pendingPolls, poll.streamId ≠ streamId) ∧
  ∀ request ∈ t.requestsByStreamId.find? streamId, ¬request.Registers
  deriving Decidable

/-- Nothing is kept for a closed stream. -/
structure Forgotten (t : Session StreamId) : Prop where
  requests : ∀ request ∈ t.pendingRequests, request.2 ∉ t.library.closed
  polls : ∀ poll ∈ t.pendingPolls, poll.streamId ∉ t.library.closed
  uncollected : ∀ streamId ∈ t.library.closed, ∀ request,
    t.requestsByStreamId.find? streamId = some request → ¬request.Registers

/-! ## Callbacks -/

variable {t : Session StreamId}

/-- A callback about an open stream that changes no more than its request. -/
theorem Forgotten.received {t' : Session StreamId} {streamId : StreamId} (h : t.Forgotten)
    (hopen : streamId ∉ t.library.closed) (hreqs : t'.pendingRequests = t.pendingRequests)
    (hpolls : t'.pendingPolls = t.pendingPolls) (hclosed : t'.library.closed = t.library.closed)
    (hothers : ∀ k, k ≠ streamId →
      t'.requestsByStreamId.find? k = t.requestsByStreamId.find? k) : t'.Forgotten := by
  constructor
  · rw [hreqs, hclosed]
    exact h.requests
  · rw [hpolls, hclosed]
    exact h.polls
  · intro k hk request hfind
    rw [hclosed] at hk
    have hne : k ≠ streamId := fun heq => hopen (heq ▸ hk)
    exact h.uncollected k hk request ((hothers k hne).symm.trans hfind)

theorem Forgotten.eraseResponse (h : t.Forgotten) (streamId : StreamId) :
    (t.eraseResponse streamId).Forgotten := { h with }

theorem Forgotten.streamClosed {streamId : StreamId} (h : t.Forgotten)
    (hmay : t.MayClose streamId) : (t.streamClosedCallback streamId).Forgotten := by
  obtain ⟨hpending, hcoll⟩ := hmay
  have huncollected : ∀ k ∈ streamId :: t.library.closed, ∀ request,
      t.requestsByStreamId.find? k = some request → ¬request.Registers := by
    intro k hk request hfind
    rcases mem_cons.mp hk with rfl | hk
    · exact hcoll request hfind
    · exact h.uncollected k hk request hfind
  unfold streamClosedCallback
  dsimp only
  split_ifs with herased
  · refine ⟨fun request hreq => ?_, fun poll hpoll => ?_, huncollected⟩
    · obtain ⟨hmem, hne⟩ := mem_filter.mp hreq
      exact not_mem_cons_of_ne_of_not_mem (of_decide_eq_true hne) (h.requests request hmem)
    · obtain ⟨hmem, hne⟩ := mem_filter.mp hpoll
      exact not_mem_cons_of_ne_of_not_mem (of_decide_eq_true hne) (h.polls poll hmem)
  · obtain ⟨hreqs, hpolls⟩ := hpending.resolve_left herased
    refine ⟨fun request hreq => ?_, fun poll hpoll => ?_, huncollected⟩
    · exact not_mem_cons_of_ne_of_not_mem (hreqs request hreq) (h.requests request hreq)
    · exact not_mem_cons_of_ne_of_not_mem (hpolls poll hpoll) (h.polls poll hpoll)

end Session

/-! ## Collecting -/

variable {w w' : Work StreamId} {streamId : StreamId} {platform : Platform} {t : Session StreamId}
  {s : Server}

theorem Treated.frame {request : Request} (h : Treated w w' streamId request) :
    w'.session.requestsByStreamId = w.session.requestsByStreamId ∧
      w'.session.library.closed = w.session.library.closed := by
  cases h with
  | responded response hsess _ | requested message _ hsess _ _
  | polled poll _ _ hsess _ => rw [hsess]; exact ⟨rfl, rfl⟩

/-- What a round registers, it registers for its own stream. -/
theorem Treated.pending {request : Request} (h : Treated w w' streamId request) :
    (∀ r ∈ w'.session.pendingRequests, r ∈ w.session.pendingRequests ∨
      r.2 = streamId ∧ request.Registers) ∧
    ∀ poll ∈ w'.session.pendingPolls, poll ∈ w.session.pendingPolls ∨
      poll.streamId = streamId ∧ request.Registers := by
  cases h with
  | responded response hsess _ =>
    rw [hsess]
    exact ⟨fun r hr => Or.inl hr, fun poll hpoll => Or.inl hpoll⟩
  | requested message hmeth hsess _ _ =>
    rw [hsess]
    refine ⟨fun r hr => ?_, fun poll hpoll => Or.inl hpoll⟩
    rcases mem_append.mp hr with hr | hr
    · exact Or.inl hr
    · rw [mem_singleton.mp hr]
      exact Or.inr ⟨rfl, hmeth.imp_right Or.inl⟩
  | polled poll hmeth hstream hsess _ =>
    rw [hsess]
    refine ⟨fun r hr => Or.inl hr, fun p hp => ?_⟩
    rcases mem_append.mp hp with hp | hp
    · exact Or.inl hp
    · rw [mem_singleton.mp hp]
      exact Or.inr ⟨hstream, Or.inr (Or.inr hmeth)⟩

/-- The loop forgets closed streams as long as its requests are among those
the session had. -/
theorem Collects.forgotten {l : List (StreamId × Request)}
    (h : Collects l w w') (hw : w.session.Forgotten)
    (hl : ∀ entry ∈ l, w.session.requestsByStreamId.find? entry.1 = some entry.2) :
    w'.session.Forgotten := by
  induction h with
  | nil => exact hw
  | @cons streamId request l w w₁ w' htreated hrest ih =>
    obtain ⟨hreqs, hclosed⟩ := htreated.frame
    obtain ⟨hpendingRequests, hpendingPolls⟩ := htreated.pending
    have hopen : request.Registers → streamId ∉ w.session.library.closed := by
      intro hregisters hclosed
      exact hw.uncollected streamId hclosed request (hl _ mem_cons_self) hregisters
    refine ih ⟨fun r hr => ?_, fun poll hpoll => ?_, ?_⟩ fun entry hent => ?_
    · rw [hclosed]
      rcases hpendingRequests r hr with hr | ⟨hstream, hregisters⟩
      · exact hw.requests r hr
      · rw [hstream]
        exact hopen hregisters
    · rw [hclosed]
      rcases hpendingPolls poll hpoll with hpoll | ⟨hstream, hregisters⟩
      · exact hw.polls poll hpoll
      · rw [hstream]
        exact hopen hregisters
    · rw [hclosed, hreqs]
      exact hw.uncollected
    · rw [hreqs]
      exact hl entry (mem_cons_of_mem _ hent)

theorem getMessages_forgotten (h : w.getMessages platform = some w') (hw : w.session.Forgotten) :
    w'.session.Forgotten := by
  obtain ⟨_, hfold, rfl⟩ := Work.getMessages_eq_some h
  have hlist : ∀ entry ∈ w.session.requestsByStreamId.entries.take w.session.completeEnd,
      w.session.requestsByStreamId.find? entry.1 = some entry.2 := fun entry hent =>
    SortedMap.find?_eq_some_iff.mpr (mem_of_mem_take hent)
  have hforgotten := (Collects.of_foldlM hfold).forgotten hw hlist
  refine ⟨hforgotten.requests, hforgotten.polls, fun k hk request hfind => ?_⟩
  exact hforgotten.uncollected k hk request (SortedMap.find?_of_eraseFirst hfind)

/-! ## Replies and notifications -/

/-- What was submitted to a stream. -/
def Session.submittedTo (t : Session StreamId) (streamId : StreamId) : List (StreamId × Response) :=
  t.library.submitted.filter fun r => r.1 = streamId

theorem Session.submittedTo_append {t' : Session StreamId} {responses : List (StreamId × Response)}
    (h : t'.library.submitted = t.library.submitted ++ responses)
    (hne : ∀ r ∈ responses, r.1 ≠ streamId) : t'.submittedTo streamId = t.submittedTo streamId := by
  have hnil : responses.filter (fun r => r.1 = streamId) = [] :=
    filter_eq_nil_iff.mpr fun r hr => by simpa using hne r hr
  rw [Session.submittedTo, h, filter_append, hnil, append_nil]
  rfl

theorem Session.handleResponse_eq (id : UInt64) (message : BrokerMessage) :
    t.handleResponse id message = t ∨
      ∃ request ∈ t.pendingRequests, ∃ response,
        t.handleResponse id message = { t.sendResponse request.2 response with
          pendingRequests := t.pendingRequests.eraseP fun request => request.1 == id } := by
  unfold Session.handleResponse
  split
  · exact Or.inl rfl
  · rename_i i streamId hfind
    exact Or.inr ⟨(i, streamId), mem_of_find?_eq_some hfind, _, rfl⟩

theorem Session.Forgotten.handleResponse (h : t.Forgotten) (id : UInt64)
    (message : BrokerMessage) : (t.handleResponse id message).Forgotten ∧
      ∀ streamId ∈ t.library.closed,
        (t.handleResponse id message).submittedTo streamId = t.submittedTo streamId := by
  rcases t.handleResponse_eq id message with heq | ⟨request, hreq, _, heq⟩
  · rw [heq]
    exact ⟨h, fun _ _ => rfl⟩
  · rw [heq]
    refine ⟨⟨fun r hr => h.requests r (mem_of_mem_eraseP hr), h.polls, h.uncollected⟩,
      fun streamId hclosed => Session.submittedTo_append rfl fun r hr => ?_⟩
    rintro rfl
    rw [mem_singleton.mp hr] at hclosed
    exact h.requests request hreq hclosed

theorem Notified.forgotten {t' : Session StreamId} (h : Notified t t') (ht : t.Forgotten) :
    t'.Forgotten ∧ ∀ streamId ∈ t.library.closed,
      t'.submittedTo streamId = t.submittedTo streamId := by
  obtain ⟨_, hsub, hstreams⟩ := h.submitted
  refine ⟨⟨?_, fun poll hpoll => ?_, ?_⟩, fun streamId hclosed => ?_⟩
  · rw [h.pendingRequests, h.closed]
    exact ht.requests
  · rw [h.closed]
    exact ht.polls poll (h.polls.subset hpoll)
  · rw [h.closed, h.requests]
    exact ht.uncollected
  · refine Session.submittedTo_append hsub fun r hr heq => ?_
    obtain ⟨poll, hpoll, hstream⟩ := hstreams r hr
    exact ht.polls poll hpoll (by rw [hstream, heq]; exact hclosed)

/-! ## Runs -/

/-- The connection and the stream an event closes. -/
def Event.closing : Event → Option (Int × Int)
  | .streamClosed fd streamId => some (fd, streamId)
  | _ => none

/-- A stream is closed only when that leaves nothing behind. -/
def CloseOk (s : Server) (e : Event) : Prop :=
  ∀ c ∈ e.closing, ∀ ptr ∈ s.find (.h2 c.1), (s.sessions ptr).MayClose c.2
  deriving Decidable

theorem forgotten_step {s' : Server} {e : Event}
    {out : List BrokerMessage} (h : s.step platform e = some (s', out)) (hok : CloseOk s e)
    (hs : ∀ ptr, (s.sessions ptr).Forgotten) (ptr : Nat) : (s'.sessions ptr).Forgotten := by
  have ht := hs ptr
  have htouched := Server.step_touched h ptr
  generalize s'.sessions ptr = t' at htouched
  cases htouched with
  | same => exact ht
  | acceptTcp | acceptQuic => exact ⟨nofun, nofun, nofun⟩
  | header hopen | data hopen =>
    exact ht.received hopen rfl rfl rfl fun k hk => SortedMap.find?_insert_of_ne _ _ hk
  | endStream hopen hcompl =>
    obtain ⟨hreqs, hpolls, hclosed, hothers⟩ :=
      Session.processCompletedRequest_eq_some hcompl
    exact ht.received hopen hreqs hpolls hclosed hothers
  | getMessages hw => exact getMessages_forgotten hw ht
  | frameSend =>
    unfold Session.frameSendCallback
    split_ifs
    · exact ht.eraseResponse _
    · exact ht
  | frameNotSend =>
    unfold Session.frameNotSendCallback
    split_ifs
    · exact ht.eraseResponse _
    · exact ht
  | streamClosed hfind hopen => exact ht.streamClosed (hok _ rfl ptr hfind)
  | response id => exact (ht.handleResponse id _).1
  | notification hnotified => exact (hnotified.forgotten ht).1

theorem forgotten_run {handlers : List Handler} {trace : List (Event × List BrokerMessage)}
    (h : Run (Server.machine platform) CloseOk (Server.initial handlers) trace s) :
    ∀ ptr, (s.sessions ptr).Forgotten :=
  Run.invariant (I := fun _ s => ∀ ptr, (s.sessions ptr).Forgotten)
    (fun _ => ⟨nofun, nofun, nofun⟩) (fun hs hok hstep => forgotten_step hstep hok hs) h

/-- A worker's reply or a notification. -/
def Event.fromBroker : Event → Bool
  | .response _ => true
  | .notification _ _ => true
  | _ => false

theorem submittedTo_step {s' : Server} {e : Event}
    {out : List BrokerMessage} (h : s.step platform e = some (s', out))
    (hbroker : e.fromBroker = true) (ptr : Nat) (ht : (s.sessions ptr).Forgotten) :
    ∀ streamId ∈ (s.sessions ptr).library.closed,
      (s'.sessions ptr).submittedTo streamId = (s.sessions ptr).submittedTo streamId := by
  have htouched := Server.step_touched h ptr
  generalize s'.sessions ptr = t' at htouched
  cases htouched with
  | same => exact fun _ _ => rfl
  | response id => exact (ht.handleResponse id _).2
  | notification hnotified => exact (hnotified.forgotten ht).2
  | _ => cases hbroker

theorem closed_streams_forgotten {platform : Platform} {handlers : List Handler}
    {trace : List (Event × List BrokerMessage)} {s : Server}
    (h : Run (Server.machine platform) CloseOk (Server.initial handlers) trace s) (ptr : Nat)
    (streamId : Int) (hclosed : streamId ∈ (s.sessions ptr).library.closed) :
    (∀ request ∈ (s.sessions ptr).pendingRequests, request.2 ≠ streamId) ∧
    (∀ poll ∈ (s.sessions ptr).pendingPolls, poll.streamId ≠ streamId) ∧
    ∀ e s' out, e.fromBroker = true → s.step platform e = some (s', out) →
      (s'.sessions ptr).submittedTo streamId = (s.sessions ptr).submittedTo streamId := by
  have ht := forgotten_run h ptr
  refine ⟨fun request hreq heq => ?_, fun poll hpoll heq => ?_,
    fun e s' out hbroker hstep => submittedTo_step hstep hbroker ptr ht streamId hclosed⟩
  · exact ht.requests request hreq (heq ▸ hclosed)
  · exact ht.polls poll hpoll (heq ▸ hclosed)

/-! ## A poll that is cancelled -/

def polledTopic : Topic where
  service := str "/service"
  params := ∅
  valid := isValidServiceName_service

/-- A poll for the first notification arrives on stream 1 and is collected. -/
def firstPoll : List Event :=
  [.acceptTcp 5 0 fun _ => true, .header (.h2 5) 1 (str ":method") (str "GET"),
   .header (.h2 5) 1 (str ":path") (str "/service?LongPollingIdx=0"), .endStream (.h2 5) 1,
   .getMessages (.h2 5)]

def firstNotification : BrokerMessage := { command := .notify, data := str "data" }

theorem cancelled_poll_is_answered : ∃ trace s s',
    Run (Server.machine .inOrder) (fun _ _ => True) (Server.initial []) trace s ∧
    1 ∈ (s.sessions 0).library.closed ∧ (s.sessions 0).pendingPolls.map (·.streamId) = [1] ∧
    s.step .inOrder (.notification polledTopic firstNotification) = some (s', []) ∧
    (s.sessions 0).submittedTo 1 = [] ∧
    (s'.sessions 0).submittedTo 1 = [(1, Session.pollResponse 0 firstNotification)] := by
  have hdef : (exec (Server.machine .inOrder) (fun _ _ => True) (Server.initial [])
      (firstPoll ++ [.streamClosed 5 1])).isSome = true := by decide +kernel
  have hstate : ∀ r ∈ exec (Server.machine .inOrder) (fun _ _ => True) (Server.initial [])
      (firstPoll ++ [.streamClosed 5 1]), 1 ∈ (r.2.sessions 0).library.closed ∧
        (r.2.sessions 0).pendingPolls.map (·.streamId) = [1] ∧
        (r.2.sessions 0).submittedTo 1 = [] ∧
        (r.2.step .inOrder (.notification polledTopic firstNotification)).isSome = true ∧
        ∀ r' ∈ r.2.step .inOrder (.notification polledTopic firstNotification),
          r'.2 = [] ∧ (r'.1.sessions 0).submittedTo 1
            = [(1, Session.pollResponse 0 firstNotification)] := by decide +kernel
  obtain ⟨⟨trace, s⟩, hexec⟩ := Option.isSome_iff_exists.mp hdef
  obtain ⟨hclosed, hpolls, hbef, hnotify, hafter⟩ := hstate (trace, s) hexec
  obtain ⟨⟨s', out⟩, hstep⟩ := Option.isSome_iff_exists.mp hnotify
  obtain ⟨rfl, hsent⟩ := hafter (s', out) hstep
  exact ⟨trace, s, s', Run.of_exec hexec, hclosed, hpolls, hstep, hbef, hsent⟩

/-- A poll that was answered before its stream is closed. -/
theorem closed_streams_forgotten_answered : ∃ trace s,
    Run (Server.machine .inOrder) CloseOk (Server.initial []) trace s ∧
    1 ∈ (s.sessions 0).library.closed ∧
    ∀ poll ∈ (s.sessions 0).pendingPolls, poll.streamId ≠ 1 := by
  have hdef : (exec (Server.machine .inOrder) CloseOk (Server.initial []) (firstPoll ++
      [.notification polledTopic firstNotification, .streamClosed 5 1])).isSome = true := by
    decide +kernel
  have hclosed : ∀ r ∈ exec (Server.machine .inOrder) CloseOk (Server.initial []) (firstPoll ++
      [.notification polledTopic firstNotification, .streamClosed 5 1]),
      1 ∈ (r.2.sessions 0).library.closed := by decide +kernel
  obtain ⟨⟨trace, s⟩, hexec⟩ := Option.isSome_iff_exists.mp hdef
  have hrun := Run.of_exec hexec
  have hclosed := hclosed (trace, s) hexec
  exact ⟨trace, s, hrun, hclosed, (closed_streams_forgotten hrun 0 1 hclosed).2.1⟩

end Rest

end OpenCmw
