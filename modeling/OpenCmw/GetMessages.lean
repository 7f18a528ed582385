import OpenCmw.RestSteps

/-!
# Collecting the completed requests

`getMessages` should work on the requests that are complete and leave the
others to arrive. It looks for the completed ones with a binary search for
the end of those at the front of a map ordered by stream id - but which
requests are complete is decided by the network, and a stream with a higher
id may well be complete before one with a lower id.

`Exact` says what the collection should do: each completed request, and no
other, gets a message to the broker, a response or a place among the pending
polls, and the others stay as they were. `getMessages_exact_iff` says when it
does so: whatever the session, exactly if no request that is still arriving
has a lower stream id than one that is complete. Otherwise requests are lost:
`slow_upload_is_lost` is an upload that is answered with an error while its
data are arriving.
-/

namespace OpenCmw

open List SortedMap

namespace Rest

variable {StreamId : Type} [LinearOrder StreamId]

/-! ## What the loop adds -/

/-- What was added to the responses, the pending requests, the pending polls
and the messages. -/
structure Added (StreamId : Type) where
  responses : List (StreamId × Response) := []
  requests : List (UInt64 × StreamId) := []
  polls : List (PendingPoll StreamId) := []
  messages : List BrokerMessage := []

namespace Added

/-- The streams something was added for, once for each addition. -/
def streams (a : Added StreamId) : List StreamId :=
  a.responses.map (·.1) ++ a.requests.map (·.2) ++ a.polls.map (·.streamId)

/-- Every pending request has its message. -/
def Answerable (a : Added StreamId) : Prop :=
  ∀ request ∈ a.requests, ∃ message ∈ a.messages, message.clientRequestID = toDec request.1.toNat

def append (a b : Added StreamId) : Added StreamId where
  responses := a.responses ++ b.responses
  requests := a.requests ++ b.requests
  polls := a.polls ++ b.polls
  messages := a.messages ++ b.messages

omit [LinearOrder StreamId] in
theorem streams_append (a b : Added StreamId) :
    (a.append b).streams.Perm (a.streams ++ b.streams) := by
  rw [← Multiset.coe_eq_coe]
  simp only [streams, append, map_append, ← Multiset.coe_add]
  abel

omit [LinearOrder StreamId] in
theorem Answerable.append {a b : Added StreamId} (ha : a.Answerable) (hb : b.Answerable) :
    (a.append b).Answerable := by
  intro request hreq
  rcases mem_append.mp hreq with h | h
  · obtain ⟨message, hmsg, hid⟩ := ha request h
    exact ⟨message, mem_append_left _ hmsg, hid⟩
  · obtain ⟨message, hmsg, hid⟩ := hb request h
    exact ⟨message, mem_append_right _ hmsg, hid⟩

end Added

/-- `w'` is `w` with the additions, and the same requests. -/
structure Grown (a : Added StreamId) (w w' : Work StreamId) : Prop where
  responses : w'.session.library.submitted = w.session.library.submitted ++ a.responses
  requests : w'.session.pendingRequests = w.session.pendingRequests ++ a.requests
  polls : w'.session.pendingPolls = w.session.pendingPolls ++ a.polls
  messages : w'.messages = w.messages ++ a.messages
  unchanged : w'.session.requestsByStreamId = w.session.requestsByStreamId

theorem Grown.refl (w : Work StreamId) : Grown {} w w := by
  constructor <;> simp

variable {w w' : Work StreamId}

theorem Grown.trans {a b : Added StreamId} {w₁ : Work StreamId} (h : Grown a w w₁)
    (h' : Grown b w₁ w') : Grown (a.append b) w w' where
  responses := by rw [h'.responses, h.responses, append_assoc]; rfl
  requests := by rw [h'.requests, h.requests, append_assoc]; rfl
  polls := by rw [h'.polls, h.polls, append_assoc]; rfl
  messages := by rw [h'.messages, h.messages, append_assoc]; rfl
  unchanged := h'.unchanged.trans h.unchanged

theorem Treated.grown {streamId : StreamId} {request : Request}
    (h : Treated w w' streamId request) :
    ∃ a, Grown a w w' ∧ a.streams = [streamId] ∧ a.Answerable := by
  cases h with
  | responded response hsess hmsgs =>
    obtain ⟨messages, hmsgs⟩ := hmsgs
    refine ⟨{ responses := [(streamId, response)], messages }, ?_, rfl, nofun⟩
    constructor <;> simp [hsess, hmsgs, Session.sendResponse]
  | requested message hmeth hsess hmsgs hid =>
    refine ⟨{ requests := [(w.nextRequestId, streamId)], messages := [message] }, ?_, rfl, ?_⟩
    · constructor <;> simp [hsess, hmsgs]
    · intro request hreq
      obtain rfl := mem_singleton.mp hreq
      exact ⟨message, mem_singleton_self _, hid⟩
  | polled poll hmeth hstream hsess hmsgs =>
    obtain ⟨messages, hmsgs⟩ := hmsgs
    refine ⟨{ polls := [poll], messages }, ?_, congrArg (fun k => [k]) hstream, nofun⟩
    constructor <;> simp [hsess, hmsgs, Session.addPoll]

/-- Each request of the list is worked on once. -/
theorem Collects.grown {l : List (StreamId × Request)} (h : Collects l w w') :
    ∃ a, Grown a w w' ∧ a.streams.Perm (l.map (·.1)) ∧ a.Answerable := by
  induction h with
  | nil => exact ⟨{}, .refl _, List.Perm.nil, nofun⟩
  | cons htreated hrest ih =>
    obtain ⟨a, hgrown, hstreams, hanswer⟩ := htreated.grown
    obtain ⟨b, hgrown', hstreams', hanswer'⟩ := ih
    refine ⟨a.append b, hgrown.trans hgrown', (Added.streams_append a b).trans ?_,
      hanswer.append hanswer'⟩
    rw [hstreams]
    exact hstreams'.cons _

/-! ## The collection -/

/-- What `getMessages` added to a session. -/
def added (before : Session StreamId) (after : Work StreamId) : Added StreamId where
  responses := after.session.library.submitted.drop before.library.submitted.length
  requests := after.session.pendingRequests.drop before.pendingRequests.length
  polls := after.session.pendingPolls.drop before.pendingPolls.length
  messages := after.messages

theorem Grown.added_eq {a : Added StreamId} (h : Grown a w w')
    (hmsgs : w.messages = []) : added w.session w' = a := by
  obtain ⟨_, _, _, _⟩ := a
  simp [added, h.responses, h.requests, h.polls, h.messages, hmsgs]

/-- The requests that are complete, and no others, are worked on and removed. -/
structure Exact (before : Session StreamId) (after : Work StreamId) : Prop where
  handled : (added before after).streams.Perm
    ((before.requestsByStreamId.entries.filter fun entry => entry.2.complete).map (·.1))
  messages : (added before after).Answerable
  left : after.session.requestsByStreamId.entries
    = before.requestsByStreamId.entries.filter fun entry => !entry.2.complete

/-- In a sorted map the order of the entries is that of the keys. -/
theorem partitioned_entries_iff {V : Type} {m : SortedMap StreamId V} {p : V → Bool} :
    Partitioned (fun entry => p entry.2) m.entries ↔
      ∀ i v j u, m.find? i = some v → m.find? j = some u → i < j → p u = true → p v = true := by
  constructor
  · intro h i v j u hi hj hlt hu
    obtain ⟨a, ha, hav⟩ := getElem_of_mem (find?_eq_some_iff.mp hi)
    obtain ⟨b, hb, hbu⟩ := getElem_of_mem (find?_eq_some_iff.mp hj)
    rcases Nat.lt_trichotomy a b with hab | rfl | hba
    · have hpair := pairwise_iff_getElem.mp h a b ha hb hab
      rw [hav, hbu] at hpair
      exact hpair hu
    · obtain ⟨rfl, rfl⟩ := Prod.mk.inj (hav.symm.trans hbu)
      exact hu
    · have hsorted := pairwise_iff_getElem.mp m.sorted b a hb ha hba
      rw [hav, hbu] at hsorted
      exact absurd hlt (lt_asymm hsorted)
  · intro h
    refine m.sorted.imp_of_mem fun {e f} he hf hlt hu => ?_
    exact h e.1 e.2 f.1 f.2 (find?_eq_some_iff.mpr he)
      (find?_eq_some_iff.mpr hf) hlt hu

theorem left_iff {platform : Platform} (h : w.getMessages platform = some w') :
    w'.session.requestsByStreamId.entries
        = (w.session.requestsByStreamId.entries.filter fun entry => !entry.2.complete) ↔
      Partitioned (fun entry => entry.2.complete) w.session.requestsByStreamId.entries := by
  obtain ⟨_, hfold, rfl⟩ := Work.getMessages_eq_some h
  obtain ⟨a, hgrown, -, -⟩ := (Collects.of_foldlM hfold).grown
  rw [← splits_partitionPoint_iff, splitsAt_iff_drop_eq_filter]
  rw [hgrown.unchanged]
  rfl

theorem exact_of_partitioned {platform : Platform}
    (hmsgs : w.messages = []) (h : w.getMessages platform = some w')
    (hpart : Partitioned (fun entry => entry.2.complete) w.session.requestsByStreamId.entries) :
    Exact w.session w' := by
  have hleft := (left_iff h).mpr hpart
  obtain ⟨w₁, hfold, rfl⟩ := Work.getMessages_eq_some h
  obtain ⟨a, hgrown, hstreams, hanswer⟩ := (Collects.of_foldlM hfold).grown
  have hadded : added w.session w₁ = a := hgrown.added_eq hmsgs
  have htake : w.session.requestsByStreamId.entries.take w.session.completeEnd
      = w.session.requestsByStreamId.entries.filter fun entry => entry.2.complete :=
    hpart.splitsAt.take_eq_filter
  refine ⟨?_, ?_, hleft⟩
  · show (added w.session w₁).streams.Perm _
    rw [hadded, ← htake]
    exact hstreams
  · show (added w.session w₁).Answerable
    rw [hadded]
    exact hanswer

theorem getMessages_exact_iff (platform : Platform) {cache : SubscriptionCache}
    (hcache : Work.CacheInRange cache) (nextRequestId : UInt64) (session : Session StreamId) :
    ∃ after, Work.getMessages platform ⟨cache, nextRequestId, session, []⟩ = some after ∧
      (Exact session after ↔ ∀ i request j request',
        session.requestsByStreamId.find? i = some request →
        session.requestsByStreamId.find? j = some request' → i < j →
          request'.complete = true → request.complete = true) := by
  obtain ⟨after, hafter⟩ := Work.getMessages_defined platform
    (w := ⟨cache, nextRequestId, session, []⟩) hcache
  refine ⟨after, hafter, ?_⟩
  rw [← partitioned_entries_iff]
  constructor
  · intro hexact
    exact (left_iff hafter).mp hexact.left
  · intro hpart
    exact exact_of_partitioned rfl hafter hpart

/-! ## An upload that is lost -/

/-- The headers of an upload and the first part of its data have come; a
request on another stream has come as a whole. -/
def uploadAndGet (upload get : Int) : Option (Session Int) :=
  let s : Session Int := { library := { accepts := fun _ => true } }
  let s := s.addHeader upload (str ":method") (str "POST")
  let s := s.addHeader upload (str ":path") (str "/upload")
  let s := s.addData upload (str "first part")
  let s := s.addHeader get (str ":method") (str "GET")
  let s := s.addHeader get (str ":path") (str "/service")
  s.processCompletedRequest .inOrder [] get

theorem slow_upload_is_lost : ∃ session request after, uploadAndGet 1 3 = some session ∧
    session.requestsByStreamId.find? 1 = some request ∧ request.complete = false ∧
    request.payload = str "first part" ∧
    Work.getMessages .inOrder ⟨∅, 0, session, []⟩ = some after ∧
    after.session.requestsByStreamId.find? 1 = none ∧
    (1, .message kHttpError { error := str "Invalid REST method" } [])
      ∈ after.session.library.submitted ∧
    ¬Exact session after := by
  have hdef : ((uploadAndGet 1 3).bind fun session =>
      Work.getMessages .inOrder ⟨∅, 0, session, []⟩).isSome = true := by decide +kernel
  obtain ⟨after, hafter⟩ := Option.isSome_iff_exists.mp hdef
  obtain ⟨session, hsess, hafter⟩ := Option.bind_eq_some_iff.mp hafter
  have hbef : ∀ s ∈ uploadAndGet 1 3, (s.requestsByStreamId.find? 1).any (fun request =>
      !request.complete && request.payload == str "first part") = true := by decide +kernel
  have hafterwards : ∀ s ∈ uploadAndGet 1 3, ∀ w ∈ Work.getMessages .inOrder ⟨∅, 0, s, []⟩,
      w.session.requestsByStreamId.find? 1 = none ∧
      (1, .message kHttpError { error := str "Invalid REST method" } [])
        ∈ w.session.library.submitted := by decide +kernel
  obtain ⟨hgone, hanswered⟩ := hafterwards session hsess after hafter
  have hbef := hbef session hsess
  cases hfind : session.requestsByStreamId.find? 1 with
  | none => rw [hfind] at hbef; cases hbef
  | some request =>
    rw [hfind] at hbef
    simp only [Option.any_some, Bool.and_eq_true, Bool.not_eq_true', beq_iff_eq] at hbef
    refine ⟨session, request, after, hsess, hfind, hbef.1, hbef.2, hafter, hgone,
      hanswered, fun hexact => ?_⟩
    have hmem : (1, request) ∈ after.session.requestsByStreamId.entries := by
      rw [hexact.left, mem_filter]
      exact ⟨find?_eq_some_iff.mp hfind, by simp [hbef.1]⟩
    rw [find?_eq_some_iff.mpr hmem] at hgone
    cases hgone

/-- On a higher stream id, the upload is left to arrive. -/
theorem getMessages_exact_iff_later_upload : ∃ session after, uploadAndGet 3 1 = some session ∧
    Work.getMessages .inOrder ⟨∅, 0, session, []⟩ = some after ∧ Exact session after := by
  have hdef : (uploadAndGet 3 1).isSome = true := by decide +kernel
  obtain ⟨session, hsess⟩ := Option.isSome_iff_exists.mp hdef
  have hpart : ∀ s ∈ uploadAndGet 3 1,
      Partitioned (fun entry => entry.2.complete) s.requestsByStreamId.entries := by
    decide +kernel
  have hcache : Work.CacheInRange ∅ := by
    intro _ _ hfind
    cases hfind
  obtain ⟨after, hafter, hiff⟩ := getMessages_exact_iff .inOrder hcache 0 session
  exact ⟨session, after, hsess, hafter,
    hiff.mpr (partitioned_entries_iff.mp (hpart session hsess))⟩

end Rest

end OpenCmw
