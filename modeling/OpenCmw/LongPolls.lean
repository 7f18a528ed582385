import OpenCmw.StreamClose

/-!
# Long polls read the notifications they ask for

The server keeps the last hundred notifications of a topic and numbers them
as they come. What it is for is simpler than what it does: there is one log
of all notifications of the topic, and a poll asks for a piece of it. So the
log is added to the server (`Logged`), which never reads it, and everything is
stated over the log.

`Represents` ties a cache entry to the log: the entry is the end of the log,
and its first index is where that end begins. `Waits` is the invariant of the
pending polls: the last notification such a poll asks for has not come yet.
Together they keep every read of the cache in bounds - a poll that becomes
ready asks for at most a hundred notifications that end with the newest - and
make every answer a piece of the log (`Answer`).

A notification answers exactly the polls whose last index is its own
(`Notification`). A session of HTTP/3 may be visited more than once for it;
the second visit finds nothing to do, which is `Notification.trans`.
-/

namespace OpenCmw

open List Option Nat SortedMap UInt64 Function

namespace Rest

open LongPolling

/-! ## Answers -/

/-- The parts are the notifications from `first` on. -/
structure IsBatch (log : List BrokerMessage) (first : UInt64) (parts : List BatchPart) : Prop where
  index : ∀ k (h : k < parts.length), parts[k].index.toNat = first.toNat + k
  part : ∀ part ∈ parts, ∃ message, log[part.index.toNat]? = some message ∧
    part.topic = message.topic.str ∧ part.serviceName = message.serviceName ∧
    part.payload = if message.error.isEmpty then message.data else message.error

/-- A response that answers a poll from the log: the notification it asks for,
or a batch that starts at the index asked for or, if that is gone, later. -/
inductive Answer (log : List BrokerMessage) (index : UInt64) (batch : LongPollingBatchRequest) :
    Response → Prop
  | single (message : BrokerMessage) (hmode : batch.mode = .none)
      (hmessage : log[index.toNat]? = some message) :
      Answer log index batch (Session.pollResponse index message)
  | allAvailable (first : UInt64) (parts : List BatchPart) (hmode : batch.mode = .allAvailable)
      (hfirst : index.toNat ≤ first.toNat) (hparts : IsBatch log first parts)
      (hpos : 0 < parts.length) : Answer log index batch (Session.batchResponse first parts)
  | fixedCount (first : UInt64) (parts : List BatchPart) (hmode : batch.mode = .fixedCount)
      (hfirst : index.toNat ≤ first.toNat) (hparts : IsBatch log first parts)
      (hcount : parts.length = batch.count.toNat) :
      Answer log index batch (Session.batchResponse first parts)

variable {log : List BrokerMessage} {entry : SubscriptionCacheEntry} {cache : SubscriptionCache}
  {index : UInt64} {platform : Platform} {message : BrokerMessage} {zmqTopic : Bytes}

theorem isBatch_partsFrom (hlog : log.length < 2 ^ 64)
    {first : UInt64} {count : Nat} (hlast : first.toNat + count ≤ log.length) :
    IsBatch log first (Session.partsFrom first.toNat ((log.drop first.toNat).take count)) ∧
      (Session.partsFrom first.toNat ((log.drop first.toNat).take count)).length = count := by
  have hlen : (Session.partsFrom first.toNat ((log.drop first.toNat).take count)).length
      = count := by
    simp only [Session.partsFrom, length_mapIdx, length_take, length_drop]
    omega
  have hidx : ∀ k < count, (ofNat (first.toNat + k)).toNat = first.toNat + k := by
    intro k hk
    rw [toNat_ofNat']
    omega
  refine ⟨⟨fun k hk => ?_, fun part hpart => ?_⟩, hlen⟩
  · rw [hlen] at hk
    simp only [Session.partsFrom, getElem_mapIdx, Session.batchPart]
    exact hidx k hk
  · obtain ⟨k, hk, rfl⟩ := getElem_of_mem hpart
    have hk' := hk
    rw [hlen] at hk'
    have hin : first.toNat + k < log.length := by omega
    refine ⟨log[first.toNat + k], ?_, ?_⟩
    · simp only [Session.partsFrom, getElem_mapIdx, Session.batchPart]
      rw [hidx k hk', getElem?_eq_getElem hin]
    · simp [Session.partsFrom, Session.batchPart]

/-! ## The window -/

/-- The entry is the end of the log. -/
structure Represents (entry : SubscriptionCacheEntry) (log : List BrokerMessage) : Prop where
  fits : log.length < 2 ^ 64
  first : entry.firstIndex.toNat = log.length - kCapacity
  messages : entry.messages = log.drop (log.length - kCapacity)

namespace Represents

variable {entry : SubscriptionCacheEntry} {log : List BrokerMessage}

theorem empty : Represents {} [] := ⟨by decide, rfl, rfl⟩

variable (h : Represents entry log)
include h

theorem length : entry.firstIndex.toNat + entry.messages.length = log.length := by
  rw [h.first, h.messages, length_drop]
  omega

theorem inRange : entry.InRange := by
  rw [SubscriptionCacheEntry.InRange, h.length]
  exact h.fits

theorem isEmpty_iff : entry.messages = [] ↔ log = [] := by
  rw [h.messages, drop_eq_nil_iff, ← length_eq_zero_iff]
  simp only [kCapacity]
  omega

theorem add (message : BrokerMessage)
    (hfits : log.length + 1 < 2 ^ 64) : Represents (entry.add message) (log ++ [message]) := by
  have hlen := h.length
  have hcap : entry.messages.length = min log.length kCapacity := by
    rw [h.messages, length_drop]
    omega
  refine ⟨by simpa using hfits, ?_, ?_⟩
  · unfold SubscriptionCacheEntry.add
    split_ifs with hfull
    · rw [UInt64.toNat_add, toNat_one, length_append, length_singleton]
      omega
    · dsimp only
      rw [length_append, length_singleton]
      omega
  · unfold SubscriptionCacheEntry.add
    have hdrop : (log ++ [message]).drop (log.length + 1 - kCapacity)
        = log.drop (log.length + 1 - kCapacity) ++ [message] :=
      drop_append_of_le_length (by simp only [kCapacity]; omega)
    rw [length_append, length_singleton, hdrop]
    split_ifs with hfull
    · have hcut : log.length - kCapacity + 1 = log.length + 1 - kCapacity := by omega
      rw [h.messages, tail_drop, hcut]
    · have hcut : log.length - kCapacity = log.length + 1 - kCapacity := by omega
      rw [h.messages, hcut]

/-- Reads between the first index and the end of the log are in bounds. -/
theorem batchParts (first count : UInt64) (hfirst : log.length - kCapacity ≤ first.toNat)
    (hlast : first.toNat + count.toNat ≤ log.length) :
    ∃ parts, Session.batchParts entry first count = some parts ∧ IsBatch log first parts ∧
      parts.length = count.toNat := by
  obtain ⟨hbatch, hlen⟩ := isBatch_partsFrom h.fits hlast
  refine ⟨_, ?_, hbatch, hlen⟩
  rw [Session.batchParts_eq h.inRange (by rw [h.first]; exact hfirst) (by rw [h.length]; exact hlast),
    h.messages, h.first, drop_drop]
  congr 4
  omega

omit h

end Represents

/-! ## Polls -/

section

variable {StreamId : Type}

/-- The index of the last notification a poll asks for. -/
def PendingPoll.last (poll : PendingPoll StreamId) : Nat :=
  poll.index.toNat + if poll.batch.mode = .fixedCount then poll.batch.count.toNat - 1 else 0

/-- The last notification the poll asks for has not come yet. -/
structure Waits (log : List BrokerMessage) (poll : PendingPoll StreamId) : Prop where
  later : log.length ≤ poll.last
  fits : poll.last < 2 ^ 64

end

variable {StreamId : Type} [LinearOrder StreamId]

/-- What becomes of a poll that was read. -/
inductive Outcome (log : List BrokerMessage) (zmqTopic : Bytes) (streamId : StreamId)
    (index : UInt64) (batch : LongPollingBatchRequest) (s s' : Session StreamId) : Prop
  | answered (response : Response) (hanswer : Answer log index batch response)
      (hsession : s' = s.sendResponse streamId response)
  | waiting (i : UInt64) (hindex : index.toNat ≤ i.toNat)
      (hwaits : Waits log (⟨zmqTopic, i, batch, streamId⟩ : PendingPoll StreamId))
      (hsession : s' = s.addPoll ⟨zmqTopic, i, batch, streamId⟩)
  | redirected (location : Bytes) (hmode : batch.mode = .none)
      (hgone : index.toNat + kCapacity < log.length)
      (hsession : s' = s.sendResponse streamId (Session.redirectResponse location))

theorem respondToLongPollBatch_eq {s : Session StreamId} {streamId : StreamId} {first count : UInt64} {parts : List BatchPart}
    (h : Session.batchParts entry first count = some parts) :
    s.respondToLongPollBatch streamId entry first count
      = some (s.sendResponse streamId (Session.batchResponse first parts)) := by
  rw [Session.respondToLongPollBatch, h]
  rfl

section

variable {platform : Platform} {s s' : Session StreamId} {streamId : StreamId} {topic : Topic}
  {entry : SubscriptionCacheEntry} {log : List BrokerMessage} {index : UInt64}
  {batch : LongPollingBatchRequest}

variable (hent : Represents entry log)
include hent

omit [LinearOrder StreamId] in
/-- A poll for one notification, or for all there are, waits while the newest
is older than the one it asks for. -/
theorem Represents.waits {zmqTopic : Bytes} (hmode : batch.mode ≠ .fixedCount)
    (holder : entry.messages ≠ [] → entry.lastIndex.toNat < index.toNat) :
    Waits log (⟨zmqTopic, index, batch, streamId⟩ : PendingPoll StreamId) := by
  have hlast : (⟨zmqTopic, index, batch, streamId⟩ : PendingPoll StreamId).last = index.toNat := by
    rw [PendingPoll.last, if_neg hmode, add_zero]
  refine ⟨?_, hlast ▸ index.toNat_lt⟩
  rw [hlast]
  by_cases hemp : entry.messages = []
  · rw [hent.isEmpty_iff.mp hemp]
    exact zero_le _
  · have hnewest := SubscriptionCacheEntry.toNat_lastIndex hent.inRange hemp
    have hlen := hent.length
    have hlt := holder hemp
    omega

theorem answerPoll_allAvailable (hmode : batch.mode = .allAvailable)
    (h : s.answerPoll platform streamId topic entry index batch = some s') :
    Outcome log topic.toZmqTopic streamId index batch s s' := by
  have hnext := SubscriptionCacheEntry.toNat_nextIndex hent.inRange
  have hmax := toNat_max index entry.firstIndex
  have hlen := hent.length
  have hfirst := hent.first
  have hfits := hent.fits
  unfold Session.answerPoll at h
  rw [hmode] at h
  dsimp only at h
  split_ifs at h with hready
  · simp only [Bool.and_eq_true, Bool.not_eq_true', isEmpty_eq_false_iff,
      decide_eq_true_iff, le_iff_toNat_le] at hready
    have hlast := SubscriptionCacheEntry.toNat_lastIndex hent.inRange hready.1
    have hpos := length_pos_iff.mpr hready.1
    have hcnt : (entry.nextIndex - max index entry.firstIndex).toNat
        = log.length - (max index entry.firstIndex).toNat := by
      rw [UInt64.toNat_sub]
      omega
    obtain ⟨parts, hparts, hbatch, hlength⟩ := hent.batchParts (max index entry.firstIndex)
      (entry.nextIndex - max index entry.firstIndex) (by omega) (by omega)
    rw [respondToLongPollBatch_eq hparts] at h
    exact .answered _ (.allAvailable (max index entry.firstIndex) parts hmode (by omega) hbatch
      (by omega)) (some.inj h).symm
  · refine .waiting index le_rfl (hent.waits (by simp [hmode]) fun hne => ?_)
      (some.inj h).symm
    simpa [hne, le_iff_toNat_le] using hready

theorem answerPoll_fixedCount (hmode : batch.mode = .fixedCount)
    (hover : Session.overflows index batch.count = false)
    (h : s.answerPoll platform streamId topic entry index batch = some s') :
    Outcome log topic.toZmqTopic streamId index batch s s' := by
  have hcnt := batch.inRange
  have hmax := toNat_max index entry.firstIndex
  have hlen := hent.length
  have hfirst := hent.first
  have hfits := hent.fits
  rw [← Bool.not_eq_true, overflows_iff hcnt.1] at hover
  have hwaiting : ∀ i : UInt64, index.toNat ≤ i.toNat → i.toNat + (batch.count.toNat - 1) < 2 ^ 64 →
      log.length ≤ i.toNat + (batch.count.toNat - 1) →
      some (s.addPoll ⟨topic.toZmqTopic, i, batch, streamId⟩) = some s' →
      Outcome log topic.toZmqTopic streamId index batch s s' := by
    intro i hi hlt hle h
    refine .waiting i hi ⟨?_, ?_⟩ (some.inj h).symm
    · simpa only [PendingPoll.last, hmode, if_true] using hle
    · simpa only [PendingPoll.last, hmode, if_true] using hlt
  unfold Session.answerPoll at h
  rw [hmode] at h
  dsimp only at h
  by_cases hemp : entry.messages = []
  · have hlog := hent.isEmpty_iff.mp hemp
    have hnot : ¬Session.overflows index batch.count = true := by
      rw [overflows_iff hcnt.1]
      exact hover
    rw [isEmpty_iff.mpr hemp, if_pos rfl, if_neg hnot, Bool.true_or, if_pos rfl] at h
    exact hwaiting index le_rfl (by omega) (by simp [hlog]) h
  · have hlast := SubscriptionCacheEntry.toNat_lastIndex hent.inRange hemp
    have hisEmpty : entry.messages.isEmpty = false := by simpa using hemp
    have hnot : ¬Session.overflows (max index entry.firstIndex) batch.count = true := by
      rw [overflows_iff hcnt.1]
      omega
    rw [hisEmpty, if_neg Bool.false_ne_true, if_neg hnot, Bool.false_or] at h
    rw [overflows_iff hcnt.1] at hnot
    have hrequested := toNat_lastRequested (max index entry.firstIndex) hcnt.1
      (by omega)
    simp only [decide_eq_true_iff, gt_iff_lt, lt_iff_toNat_lt, hrequested] at h
    split_ifs at h with hwait
    · exact hwaiting _ (by omega) (by omega) (by omega) h
    · obtain ⟨parts, hparts, hbatch, hlength⟩ := hent.batchParts (max index entry.firstIndex)
        batch.count (by omega) (by omega)
      rw [respondToLongPollBatch_eq hparts] at h
      exact .answered _ (.fixedCount (max index entry.firstIndex) parts hmode (by omega) hbatch
        hlength) (some.inj h).symm

theorem answerPoll_single (hmode : batch.mode = .none)
    (h : s.answerPoll platform streamId topic entry index batch = some s') :
    Outcome log topic.toZmqTopic streamId index batch s s' := by
  have hfirst := hent.first
  have hidx := index.toNat_lt
  unfold Session.answerPoll at h
  rw [hmode] at h
  dsimp only at h
  split_ifs at h with hold hwait
  · obtain ⟨location, hredir⟩ := Session.redirect_eq platform s streamId topic
      entry.nextIndex none
    rw [lt_iff_toNat_lt] at hold
    exact .redirected location hmode (by omega) (some.inj (h.symm.trans hredir))
  · refine .waiting index le_rfl (hent.waits (by simp [hmode]) fun hne => ?_)
      (some.inj h).symm
    simpa [hne, lt_iff_toNat_lt] using hwait
  · obtain ⟨message, hmsg, hs⟩ := map_eq_some_iff.mp h
    rw [lt_iff_toNat_lt] at hold
    have hoffset : (index - entry.firstIndex).toNat
        = index.toNat - (log.length - kCapacity) := by
      rw [UInt64.toNat_sub]
      omega
    rw [hoffset, hent.messages, getElem?_drop] at hmsg
    refine .answered _ (.single message hmode ?_) hs.symm
    rw [← hmsg]
    congr 1
    omega

theorem answerPoll_outcome
    (hover : batch.mode = .fixedCount → Session.overflows index batch.count = false)
    (h : s.answerPoll platform streamId topic entry index batch = some s') :
    Outcome log topic.toZmqTopic streamId index batch s s' := by
  cases hmode : batch.mode with
  | none => exact answerPoll_single hent hmode h
  | allAvailable => exact answerPoll_allAvailable hent hmode h
  | fixedCount => exact answerPoll_fixedCount hent hmode (hover hmode) h

omit hent

end

/-! ## Collecting polls -/

/-- Every entry of the cache is the end of its topic's log; what is not in the
cache has no log. -/
structure CacheOk (cache : SubscriptionCache) (log : Bytes → List BrokerMessage) : Prop where
  cached : ∀ zmqTopic entry, cache.find? zmqTopic = some entry → Represents entry (log zmqTopic)
  uncached : ∀ zmqTopic, cache.find? zmqTopic = none → log zmqTopic = []

theorem CacheOk.inRange {log : Bytes → List BrokerMessage}
    (h : CacheOk cache log) : Work.CacheInRange cache := fun zmqTopic entry hfind =>
  (h.cached zmqTopic entry hfind).inRange

/-- Topics stay in the cache. -/
def Covers (cache cache' : SubscriptionCache) : Prop :=
  ∀ zmqTopic, (cache.find? zmqTopic).isSome = true → (cache'.find? zmqTopic).isSome = true

/-- How a response answers a request, if the request is a poll for a number. -/
def RespondsTo (log : Bytes → List BrokerMessage) (request : Request) (response : Response) :
    Prop :=
  ∀ topic index batch, request.method = .longPoll → request.topic = some topic →
    parsePoll request = .ok (some index, batch) →
    Answer (log topic.toZmqTopic) index batch response ∨
      batch.mode = .none ∧ index.toNat + kCapacity < (log topic.toZmqTopic).length ∧
        ∃ location, response = Session.redirectResponse location

/-- A poll that was registered for a request waits for what it asks for. -/
def RegisteredFor (log : Bytes → List BrokerMessage) (request : Request)
    (poll : PendingPoll StreamId) : Prop :=
  ∃ topic index, request.topic = some topic ∧
    parsePoll request = .ok (some index, poll.batch) ∧ poll.zmqTopic = topic.toZmqTopic ∧
    index.toNat ≤ poll.index.toNat ∧ Waits (log topic.toZmqTopic) poll

theorem parsePoll_overflows {request : Request} {batch : LongPollingBatchRequest}
    (h : parsePoll request = .ok (some index, batch)) (hmode : batch.mode = .fixedCount) :
    Session.overflows index batch.count = false := by
  unfold parsePoll at h
  split at h
  · cases h
  · split at h
    · cases h
    · cases h
    · split_ifs at h with hover
      obtain ⟨hidx, rfl⟩ := Prod.mk.inj (Except.ok.inj h)
      cases hidx
      exact Bool.eq_false_iff.mpr fun htrue => hover ⟨hmode, htrue⟩
    · cases h

theorem CacheOk.insert {log : Bytes → List BrokerMessage} (h : CacheOk cache log)
    (zmqTopic : Bytes) {messages : List BrokerMessage} (hent : Represents entry messages) :
    CacheOk (cache.insert zmqTopic entry) (update log zmqTopic messages) := by
  refine ⟨fun z e hz => ?_, fun z hz => ?_⟩
  · by_cases heq : z = zmqTopic
    · rw [heq, find?_insert_self] at hz
      rw [heq, update_self, ← some.inj hz]
      exact hent
    · rw [find?_insert_of_ne _ _ heq] at hz
      rw [update_of_ne heq]
      exact h.cached z e hz
  · by_cases heq : z = zmqTopic
    · rw [heq, find?_insert_self] at hz
      cases hz
    · rw [find?_insert_of_ne _ _ heq] at hz
      rw [update_of_ne heq]
      exact h.uncached z hz

theorem requireEntry_ok (platform : Platform) {w : Work StreamId} (topic : Topic)
    {log : Bytes → List BrokerMessage} (h : CacheOk w.cache log) :
    Represents (w.requireEntry platform topic).1 (log topic.toZmqTopic) ∧
      CacheOk (w.requireEntry platform topic).2.cache log ∧
      Covers w.cache (w.requireEntry platform topic).2.cache ∧
      ((w.requireEntry platform topic).2.cache.find? topic.toZmqTopic).isSome = true := by
  unfold Work.requireEntry
  split
  · rename_i entry hfind
    exact ⟨h.cached _ _ hfind, h, fun _ => id, by rw [hfind]; rfl⟩
  · rename_i hnone
    have hlog := h.uncached _ hnone
    have hemp : Represents {} (log topic.toZmqTopic) := by
      rw [hlog]
      exact .empty
    have hinsert := h.insert topic.toZmqTopic hemp
    rw [update_eq_self] at hinsert
    refine ⟨hemp, hinsert, fun z hz => ?_, by rw [find?_insert_self]; rfl⟩
    by_cases heq : z = topic.toZmqTopic
    · rw [heq, find?_insert_self]
      rfl
    · rw [find?_insert_of_ne _ _ heq]
      exact hz

/-- What working on requests did: the responses and the polls it added, each
for one of the requests. -/
structure CollectedFor (log : Bytes → List BrokerMessage)
    (requests : StreamId → Request → Prop) (w w' : Work StreamId) : Prop where
  cache : CacheOk w'.cache log
  covers : Covers w.cache w'.cache
  responses : ∃ responses, w'.session.library.submitted = w.session.library.submitted ++ responses ∧
    ∀ r ∈ responses, ∃ request, requests r.1 request ∧ RespondsTo log request r.2
  polls : ∃ polls, w'.session.pendingPolls = w.session.pendingPolls ++ polls ∧
    ∀ poll ∈ polls, ∃ request, requests poll.streamId request ∧ RegisteredFor log request poll ∧
      (w'.cache.find? poll.zmqTopic).isSome = true

theorem CollectedFor.trans {log : Bytes → List BrokerMessage}
    {requests : StreamId → Request → Prop} {w w₁ w' : Work StreamId}
    (h : CollectedFor log requests w w₁) (h' : CollectedFor log requests w₁ w') :
    CollectedFor log requests w w' := by
  obtain ⟨responses, hsub, hresponds⟩ := h.responses
  obtain ⟨responses', hsub', hresponds'⟩ := h'.responses
  obtain ⟨polls, hpolls, hregistered⟩ := h.polls
  obtain ⟨polls', hpolls', hregistered'⟩ := h'.polls
  refine ⟨h'.cache, fun z hz => h'.covers z (h.covers z hz),
    ⟨responses ++ responses', by rw [hsub', hsub, append_assoc], fun r hr => ?_⟩,
    ⟨polls ++ polls', by rw [hpolls', hpolls, append_assoc], fun poll hpoll => ?_⟩⟩
  · rcases mem_append.mp hr with hr | hr
    · exact hresponds r hr
    · exact hresponds' r hr
  · rcases mem_append.mp hpoll with hpoll | hpoll
    · obtain ⟨request, hreq, hreg, hcached⟩ := hregistered poll hpoll
      exact ⟨request, hreq, hreg, h'.covers _ hcached⟩
    · exact hregistered' poll hpoll

section

variable {log : Bytes → List BrokerMessage} {requests : StreamId → Request → Prop}
  {platform : Platform} {w w' : Work StreamId} {streamId : StreamId} {request : Request}

/-- A round that only sends a response. -/
theorem CollectedFor.responded {response : Response} (hcache : CacheOk w'.cache log)
    (hcov : Covers w.cache w'.cache) (hreq : requests streamId request)
    (hresp : RespondsTo log request response)
    (hsess : w'.session = w.session.sendResponse streamId response) :
    CollectedFor log requests w w' := by
  refine ⟨hcache, hcov, ⟨[(streamId, response)], by rw [hsess]; rfl, fun r hr => ?_⟩,
    ⟨[], by rw [hsess]; exact (append_nil _).symm, nofun⟩⟩
  rw [mem_singleton.mp hr]
  exact ⟨request, hreq, hresp⟩

theorem processLongPollRequest_collected {topic : Topic} (hcache : CacheOk w.cache log)
    (hreq : requests streamId request) (htopic : request.topic = some topic)
    (h : w.processLongPollRequest platform streamId request topic = some w') :
    CollectedFor log requests w w' := by
  obtain ⟨hent, hcache', hcov, hcached⟩ := requireEntry_ok platform topic hcache
  rcases Work.processLongPollRequest_eq_some h with
    ⟨response, hparse, rfl⟩ | ⟨batch, location, hparse, rfl⟩ | ⟨index, batch, session, hparse, hanswer, rfl⟩
  · refine .responded hcache (fun _ => id) hreq ?_ rfl
    intro _ _ _ _ _ hok
    rw [hparse] at hok
    cases hok
  · refine .responded hcache' hcov hreq ?_ rfl
    intro _ _ _ _ _ hok
    rw [hparse] at hok
    cases hok
  · have hresponds : ∀ response, (Answer (log topic.toZmqTopic) index batch response ∨
        batch.mode = .none ∧ index.toNat + kCapacity < (log topic.toZmqTopic).length ∧
          ∃ location, response = Session.redirectResponse location) →
        RespondsTo log request response := by
      intro response hresp topic' index' batch' _ htopic' hparse'
      obtain rfl := some.inj (htopic.symm.trans htopic')
      obtain ⟨hidx, rfl⟩ := Prod.mk.inj (Except.ok.inj (hparse.symm.trans hparse'))
      cases hidx
      exact hresp
    rcases answerPoll_outcome hent (parsePoll_overflows hparse) hanswer with
      ⟨response, hans, hsess⟩ | ⟨i, hidx, hwaits, hsess⟩ | ⟨location, hmode, hgone, hsess⟩
    · exact .responded hcache' hcov hreq (hresponds response (Or.inl hans)) hsess
    · refine ⟨hcache', hcov, ⟨[], by rw [hsess]; exact (append_nil _).symm, nofun⟩,
        ⟨[⟨topic.toZmqTopic, i, batch, streamId⟩], by rw [hsess]; rfl, fun poll hpoll => ?_⟩⟩
      obtain rfl := mem_singleton.mp hpoll
      exact ⟨request, hreq, ⟨topic, index, htopic, hparse, rfl, hidx, hwaits⟩, hcached⟩
    · exact .responded hcache' hcov hreq
        (hresponds _ (Or.inr ⟨hmode, hgone, location, rfl⟩)) hsess

theorem handleRequest_collected (hcache : CacheOk w.cache log)
    (hreq : requests streamId request)
    (h : w.handleRequest platform (streamId, request) = some w') :
    CollectedFor log requests w w' := by
  have hother : request.method ≠ .longPoll → ∀ response, RespondsTo log request response :=
    fun hmeth _ _ _ _ hlong => absurd hlong hmeth
  have hgetSet : ∀ topic, w.processGetSetRequest platform streamId request topic = w' →
      CollectedFor log requests w w' := by
    rintro topic rfl
    exact ⟨hcache, fun _ => id, ⟨[], (append_nil _).symm, nofun⟩, ⟨[], (append_nil _).symm, nofun⟩⟩
  unfold Work.handleRequest at h
  dsimp only at h
  split at h
  · rename_i hmeth
    cases h
    exact .responded hcache (fun _ => id) hreq (hother (by simp [hmeth]) _) rfl
  · obtain ⟨topic, -, hw⟩ := map_eq_some_iff.mp h
    exact hgetSet topic hw
  · obtain ⟨topic, -, hw⟩ := map_eq_some_iff.mp h
    exact hgetSet topic hw
  · obtain ⟨topic, htopic, hpoll⟩ := bind_eq_some_iff.mp h
    exact processLongPollRequest_collected hcache hreq htopic hpoll
  · rename_i hmeth
    cases h
    exact .responded hcache (fun _ => id) hreq (hother (by simp [hmeth]) _) rfl

end

theorem foldlM_collected {log : Bytes → List BrokerMessage} (requests : StreamId → Request → Prop) :
    ∀ {l : List (StreamId × Request)} {w w' : Work StreamId}, CacheOk w.cache log →
      (∀ entry ∈ l, requests entry.1 entry.2) →
      l.foldlM (Work.handleRequest platform) w = some w' → CollectedFor log requests w w'
  | [], w, w', hcache, _, h => by
    cases h
    exact ⟨hcache, fun _ => id, ⟨[], (append_nil _).symm, nofun⟩, ⟨[], (append_nil _).symm, nofun⟩⟩
  | (streamId, request) :: l, w, w', hcache, hl, h => by
    rw [foldlM_cons] at h
    obtain ⟨w₁, hrnd, hrest⟩ := bind_eq_some_iff.mp h
    have hfirst : CollectedFor log requests w w₁ :=
      handleRequest_collected hcache (hl _ mem_cons_self) hrnd
    exact hfirst.trans (foldlM_collected requests hfirst.cache
      (fun entry hent => hl entry (mem_cons_of_mem _ hent)) hrest)

theorem getMessages_collected {log : Bytes → List BrokerMessage}
    {w w' : Work StreamId} (hcache : CacheOk w.cache log) (h : w.getMessages platform = some w') :
    CollectedFor log (fun k request => w.session.requestsByStreamId.find? k = some request)
      w w' := by
  obtain ⟨_, hfold, rfl⟩ := Work.getMessages_eq_some h
  have hcoll := foldlM_collected (fun k request =>
    w.session.requestsByStreamId.find? k = some request) hcache (fun entry hent =>
      find?_eq_some_iff.mpr (mem_of_mem_take hent)) hfold
  exact { hcoll with }

/-! ## Notifying polls -/

/-- The notification the poll waited for is the one with this index. -/
def PendingPoll.Due (poll : PendingPoll StreamId) (zmqTopic : Bytes) (index : Nat) : Prop :=
  poll.zmqTopic = zmqTopic ∧ poll.last = index

instance (poll : PendingPoll StreamId) (zmqTopic : Bytes) (index : Nat) :
    Decidable (poll.Due zmqTopic index) := inferInstanceAs (Decidable (_ ∧ _))

variable {poll : PendingPoll StreamId}

omit [LinearOrder StreamId] in
theorem Waits.toNat_lastRequested (h : Waits log poll) : poll.lastRequested.toNat = poll.last := by
  have hfits := h.fits
  have hcnt := poll.batch.inRange.1
  unfold PendingPoll.last at hfits ⊢
  unfold PendingPoll.lastRequested
  split_ifs at hfits ⊢ with hmode
  · exact Rest.toNat_lastRequested poll.index hcnt hfits
  · rfl

omit [LinearOrder StreamId] in
theorem Waits.ready_iff (h : Waits log poll) (hidx : index.toNat = log.length) :
    poll.ready index = true ↔ poll.last = log.length := by
  have hlater := h.later
  have hlast := h.toNat_lastRequested
  unfold PendingPoll.ready
  split_ifs with hmode
  · have hindexOnly : poll.last = poll.index.toNat := by simp [PendingPoll.last, hmode]
    rw [beq_iff_eq, ← UInt64.toNat_inj, hidx, hindexOnly]
    exact eq_comm
  · rw [decide_eq_true_iff, ge_iff_le, le_iff_toNat_le, hlast, hidx]
    omega

/-- A poll that becomes ready is answered from the log. -/
theorem answerReady_eq (hent : Represents entry (log ++ [message]))
    (hfind : cache.find? poll.zmqTopic = some entry) (hlast : poll.last = log.length)
    (s : Session StreamId) :
    ∃ response, s.answerReady cache message poll = some (s.sendResponse poll.streamId response) ∧
      Answer (log ++ [message]) poll.index poll.batch response := by
  have hlen := hent.length
  have hfirst := hent.first
  have hnext := SubscriptionCacheEntry.toNat_nextIndex hent.inRange
  have hcnt := poll.batch.inRange
  have hmax := toNat_max poll.index entry.firstIndex
  have hfits := hent.fits
  have hlog : (log ++ [message]).length = log.length + 1 := length_append
  unfold PendingPoll.last at hlast
  unfold Session.answerReady
  cases hmode : poll.batch.mode with
  | none =>
    rw [hmode, if_neg (by simp), add_zero] at hlast
    refine ⟨_, by rw [if_pos rfl]; rfl, .single message hmode ?_⟩
    rw [hlast, getElem?_append_right le_rfl, Nat.sub_self]
    rfl
  | allAvailable =>
    rw [hmode, if_neg (by simp), add_zero] at hlast
    have hone : (entry.nextIndex - max poll.index entry.firstIndex).toNat = 1 := by
      rw [UInt64.toNat_sub]
      omega
    obtain ⟨parts, hparts, hbatch, hlength⟩ := hent.batchParts
      (max poll.index entry.firstIndex) (entry.nextIndex - max poll.index entry.firstIndex)
      (by omega) (by simp only [kCapacity] at hfirst; omega)
    rw [if_neg (by simp), hfind]
    dsimp only
    rw [if_pos rfl]
    exact ⟨_, respondToLongPollBatch_eq hparts, .allAvailable (max poll.index entry.firstIndex)
      parts hmode (by omega) hbatch (by omega)⟩
  | fixedCount =>
    rw [hmode, if_pos rfl] at hlast
    simp only [kCapacity] at hcnt
    obtain ⟨parts, hparts, hbatch, hlength⟩ := hent.batchParts poll.index poll.batch.count
      (by simp only [kCapacity]; omega) (by omega)
    rw [if_neg (by simp), hfind]
    dsimp only
    rw [if_neg (by simp)]
    exact ⟨_, respondToLongPollBatch_eq hparts, .fixedCount poll.index parts hmode le_rfl hbatch
      hlength⟩

/-- What a notification does to a session: the polls that waited for it are
answered, each with its piece of the log, and the others stay. -/
structure Notification (log : List BrokerMessage) (zmqTopic : Bytes) (message : BrokerMessage)
    (t t' : Session StreamId) : Prop where
  polls : t'.pendingPolls = t.pendingPolls.filter fun poll => ¬poll.Due zmqTopic log.length
  responses : ∃ responses, t'.library.submitted = t.library.submitted ++ responses ∧
    List.Forall₂ (fun poll r => r.1 = poll.streamId ∧
        Answer (log ++ [message]) poll.index poll.batch r.2)
      (t.pendingPolls.filter fun poll => poll.Due zmqTopic log.length) responses

theorem Notification.trans {t t₁ t' : Session StreamId}
    (h : Notification log zmqTopic message t t₁) (h' : Notification log zmqTopic message t₁ t') :
    Notification log zmqTopic message t t' := by
  have hnone : t₁.pendingPolls.filter (fun poll => poll.Due zmqTopic log.length) = [] := by
    rw [h.polls, List.filter_filter]
    exact filter_eq_nil_iff.mpr fun poll _ => by simp
  obtain ⟨responses, hsub, hanswers⟩ := h.responses
  obtain ⟨_, hsub', hanswers'⟩ := h'.responses
  rw [hnone] at hanswers'
  cases hanswers'
  refine ⟨?_, responses, by rw [hsub', hsub, append_nil], hanswers⟩
  rw [h'.polls, h.polls, List.filter_filter]
  simp

theorem notifyPolls_exact
    (hent : Represents entry (log ++ [message])) (hfind : cache.find? zmqTopic = some entry)
    (hidx : index.toNat = log.length) :
    ∀ (polls : List (PendingPoll StreamId)) (s : Session StreamId),
      (∀ poll ∈ polls, poll.zmqTopic = zmqTopic → Waits log poll) →
      ∃ s' responses, Session.notifyPolls cache zmqTopic index message polls s
          = some (polls.filter (fun poll => ¬poll.Due zmqTopic log.length), s') ∧
        s'.library.submitted = s.library.submitted ++ responses ∧
        List.Forall₂ (fun poll r => r.1 = poll.streamId ∧
            Answer (log ++ [message]) poll.index poll.batch r.2)
          (polls.filter fun poll => poll.Due zmqTopic log.length) responses
  | [], s, _ => ⟨s, [], rfl, (append_nil _).symm, .nil⟩
  | poll :: polls, s, hwaits => by
    have hrest : ∀ p ∈ polls, p.zmqTopic = zmqTopic → Waits log p := fun p hp =>
      hwaits p (mem_cons_of_mem _ hp)
    have hready : poll.zmqTopic = zmqTopic ∧ poll.ready index = true ↔
        poll.Due zmqTopic log.length :=
      and_congr_right fun hz => (hwaits poll mem_cons_self hz).ready_iff hidx
    by_cases hdue : poll.Due zmqTopic log.length
    · obtain ⟨response, hanswer, hexact⟩ := answerReady_eq hent
        (by rw [hdue.1]; exact hfind) hdue.2 s
      obtain ⟨s', responses, hloop, hsub, hanswers⟩ := notifyPolls_exact hent hfind hidx
        polls (s.sendResponse poll.streamId response) hrest
      refine ⟨s', (poll.streamId, response) :: responses, ?_, ?_, ?_⟩
      · rw [Session.notifyPolls, if_pos (hready.mpr hdue), hanswer, bind_some, hloop,
          filter_cons_of_neg (by simpa using hdue)]
      · rw [hsub, Session.sendResponse_submitted, append_assoc]
        rfl
      · rw [filter_cons_of_pos (by simpa using hdue)]
        exact .cons ⟨rfl, hexact⟩ hanswers
    · obtain ⟨s', responses, hloop, hsub, hanswers⟩ := notifyPolls_exact hent hfind hidx
        polls s hrest
      refine ⟨s', responses, ?_, hsub, ?_⟩
      · rw [Session.notifyPolls, if_neg (fun h => hdue (hready.mp h)), hloop,
          filter_cons_of_pos (by simpa using hdue)]
        rfl
      · rw [filter_cons_of_neg (by simpa using hdue)]
        exact hanswers

theorem handleNotification_exact
    (hent : Represents entry (log ++ [message])) (hfind : cache.find? zmqTopic = some entry)
    (hidx : index.toNat = log.length) (t : Session StreamId)
    (hwaits : ∀ poll ∈ t.pendingPolls, poll.zmqTopic = zmqTopic → Waits log poll) :
    ∃ t', t.handleNotification cache zmqTopic index message = some t' ∧
      Notification log zmqTopic message t t' := by
  obtain ⟨s', responses, hloop, hsub, hanswers⟩ :=
    notifyPolls_exact hent hfind hidx t.pendingPolls t hwaits
  refine ⟨{ s' with
    pendingPolls := t.pendingPolls.filter fun poll => ¬poll.Due zmqTopic log.length },
    ?_, rfl, responses, hsub, hanswers⟩
  rw [Session.handleNotification, hloop]
  rfl

theorem notifySessions_exact (index : UInt64)
    (hent : Represents entry (log ++ [message])) (hidx : index.toNat = log.length) :
    ∀ (ptrs : List Nat) (s : Server), s.cache.find? zmqTopic = some entry →
      (∀ ptr ∈ ptrs, ∀ poll ∈ (s.sessions ptr).pendingPolls, poll.zmqTopic = zmqTopic →
        Waits log poll) →
      ∃ s', Server.notifySessions zmqTopic index message ptrs s = some s' ∧
        s'.cache = s.cache ∧ s'.pointers = s.pointers ∧
        (∀ ptr ∈ ptrs, Notification log zmqTopic message (s.sessions ptr) (s'.sessions ptr)) ∧
        ∀ ptr ∉ ptrs, s'.sessions ptr = s.sessions ptr
  | [], s, _, _ => ⟨s, rfl, rfl, rfl, nofun, fun _ _ => rfl⟩
  | p :: ptrs, s, hfind, hwaits => by
    obtain ⟨t, ht, hnotified⟩ := handleNotification_exact hent hfind hidx (s.sessions p)
      (hwaits p mem_cons_self)
    have hkept : ∀ poll ∈ t.pendingPolls, poll ∈ (s.sessions p).pendingPolls := by
      intro poll hpoll
      rw [hnotified.polls] at hpoll
      exact mem_of_mem_filter hpoll
    obtain ⟨s', hloop, hcache, hptrs, hvisited, hothers⟩ :=
      notifySessions_exact index hent hidx ptrs (s.setSession p t) hfind (by
        intro ptr hptr poll hpoll
        by_cases heq : ptr = p
        · rw [heq, Server.setSession_sessions, update_self] at hpoll
          exact hwaits p mem_cons_self poll (hkept poll hpoll)
        · rw [Server.setSession_sessions, update_of_ne heq] at hpoll
          exact hwaits ptr (mem_cons_of_mem _ hptr) poll hpoll)
    rw [Server.setSession_sessions] at hvisited hothers
    refine ⟨s', by rw [Server.notifySessions, ht]; exact hloop, hcache, hptrs,
      fun ptr hptr => ?_, fun ptr hptr => ?_⟩
    · by_cases heq : ptr = p
      · subst heq
        by_cases hagain : ptr ∈ ptrs
        · have hsecond := hvisited ptr hagain
          rw [update_self] at hsecond
          exact hnotified.trans hsecond
        · rw [hothers ptr hagain, update_self]
          exact hnotified
      · have hlater := hvisited ptr ((mem_cons.mp hptr).resolve_left heq)
        rwa [update_of_ne heq] at hlater
    · obtain ⟨hne, hnot⟩ := not_or.mp (mem_cons.not.mp hptr)
      rw [hothers ptr hnot, update_of_ne hne]

omit [LinearOrder StreamId] in
theorem Waits.snoc
    (h : Waits log poll) (hlast : poll.last ≠ log.length) : Waits (log ++ [message]) poll := by
  have hlater := h.later
  refine ⟨?_, h.fits⟩
  rw [length_append, length_singleton]
  omega

/-! ## Steps with the log -/

namespace Server

theorem mem_pointers_iff {s : Server} {ptr : Nat} :
    ptr ∈ s.pointers ↔ ∃ connection, s.find connection = some ptr := by
  rw [pointers, mem_append, List.mem_map, List.mem_map]
  constructor
  · rintro (⟨⟨fd, p⟩, hent, rfl⟩ | ⟨⟨cid, p⟩, hent, rfl⟩)
    · exact ⟨.h2 fd, find?_eq_some_iff.mpr hent⟩
    · exact ⟨.h3 cid, UMap.mem_entries_iff.mp hent⟩
  · rintro ⟨fd | cid, hfind⟩
    · exact Or.inl ⟨(fd, ptr), find?_eq_some_iff.mp hfind, rfl⟩
    · exact Or.inr ⟨⟨cid, ptr⟩, UMap.mem_entries_iff.mpr hfind, rfl⟩

theorem lookup_foldl_tryEmplace {cid : Bytes} {p ptr : Nat} :
    ∀ (cids : List Bytes) {m : UMap Bytes Nat},
      (cids.foldl (fun m cid => UMap.tryEmplace m cid p) m).lookup cid = some ptr →
        ptr = p ∨ m.lookup cid = some ptr
  | [], m, h => Or.inr h
  | c :: cids, m, h => by
    rcases lookup_foldl_tryEmplace cids h with hp | hm
    · exact Or.inl hp
    · rw [UMap.lookup_tryEmplace] at hm
      split_ifs at hm with heq
      · cases hc : m.lookup c with
        | none =>
          rw [hc] at hm
          exact Or.inl (some.inj hm).symm
        | some q =>
          rw [hc] at hm
          rw [heq, hc]
          exact Or.inr hm
      · exact Or.inr hm

end Server

/-- The events that add no poll and answer none. -/
def Event.leavesPolls : Event → Bool
  | .getMessages _ => false
  | .notification _ _ => false
  | _ => true

/-- A poll of a session that some table holds. -/
def Server.Polled (s : Server) (poll : PendingPoll Int) : Prop :=
  ∃ ptr ∈ s.pointers, poll ∈ (s.sessions ptr).pendingPolls

theorem polls_of_touched {s : Server} {ptr : Nat} {e : Event}
    {t : Session Int} (h : Server.Touched platform s ptr e t) (he : e.leavesPolls = true) :
    ∀ poll ∈ t.pendingPolls, poll ∈ (s.sessions ptr).pendingPolls := by
  cases h with
  | acceptTcp => nofun
  | acceptQuic => nofun
  | endStream hopen hcompl =>
    intro poll hpoll
    rwa [(Session.processCompletedRequest_eq_some hcompl).2.1] at hpoll
  | frameSend =>
    unfold Session.frameSendCallback
    split_ifs <;> exact fun _ => id
  | frameNotSend =>
    unfold Session.frameNotSendCallback
    split_ifs <;> exact fun _ => id
  | response requestId =>
    unfold Session.handleResponse
    split <;> exact fun _ => id
  | streamClosed =>
    unfold Session.streamClosedCallback
    dsimp only
    split_ifs
    · exact fun poll hpoll => mem_of_mem_filter hpoll
    · exact fun _ => id
  | getMessages => cases he
  | notification => cases he
  | _ => exact fun _ => id

/-- The other events keep the cache and add no poll. -/
theorem Server.step_leavesPolls {s s' : Server} {e : Event}
    {out : List BrokerMessage} (h : s.step platform e = some (s', out))
    (he : e.leavesPolls = true) : s'.cache = s.cache ∧ ∀ poll, s'.Polled poll → s.Polled poll := by
  have hkept : ∀ ptr, ∀ poll ∈ (s'.sessions ptr).pendingPolls,
      poll ∈ (s.sessions ptr).pendingPolls := fun ptr =>
    polls_of_touched (Server.step_touched h ptr) he
  -- a table that holds no new address
  have hold : (∀ ptr ∈ s'.pointers, ptr ∈ s.pointers) → ∀ poll, s'.Polled poll → s.Polled poll := by
    rintro hptrs poll ⟨ptr, hptr, hpoll⟩
    exact ⟨ptr, hptrs ptr hptr, hkept ptr poll hpoll⟩
  -- a new session has no polls
  have hnew : ∀ p, (s'.sessions p).pendingPolls = [] →
      (∀ ptr ∈ s'.pointers, ptr = p ∨ ptr ∈ s.pointers) → ∀ poll, s'.Polled poll → s.Polled poll := by
    rintro p hemp hptrs poll ⟨ptr, hptr, hpoll⟩
    rcases hptrs ptr hptr with rfl | hptr
    · rw [hemp] at hpoll
      cases hpoll
    · exact ⟨ptr, hptr, hkept ptr poll hpoll⟩
  cases e with
  | acceptTcp fd p accepts =>
    rw [step] at h
    split_ifs at h
    obtain ⟨s₁, hsess, heq⟩ := map_eq_some_iff.mp h
    cases heq
    obtain ⟨-, rfl⟩ := newSession_eq_some hsess
    refine ⟨rfl, hnew p ?_ fun ptr hptr => ?_⟩
    · rw [setSession_sessions, update_self]
    · obtain ⟨c, hfind⟩ := mem_pointers_iff.mp hptr
      cases c with
      | h2 fd' =>
        change (s.h2Sessions.insert fd p).find? fd' = some ptr at hfind
        by_cases heq : fd' = fd
        · rw [heq, find?_insert_self] at hfind
          exact Or.inl (some.inj hfind).symm
        · rw [find?_insert_of_ne _ _ heq] at hfind
          exact Or.inr (mem_pointers_iff.mpr ⟨.h2 fd', hfind⟩)
      | h3 cid => exact Or.inr (mem_pointers_iff.mpr ⟨.h3 cid, hfind⟩)
  | acceptQuic cids p accepts =>
    obtain ⟨s₁, hsess, heq⟩ := map_eq_some_iff.mp h
    cases heq
    obtain ⟨-, rfl⟩ := newSession_eq_some hsess
    refine ⟨rfl, hnew p ?_ fun ptr hptr => ?_⟩
    · rw [setSession_sessions, update_self]
    · obtain ⟨c, hfind⟩ := mem_pointers_iff.mp hptr
      cases c with
      | h2 fd => exact Or.inr (mem_pointers_iff.mpr ⟨.h2 fd, hfind⟩)
      | h3 cid => exact (lookup_foldl_tryEmplace _ hfind).imp_right fun hm =>
        mem_pointers_iff.mpr ⟨.h3 cid, hm⟩
  | associateCid cid newCid =>
    obtain ⟨p, hp, heq⟩ := map_eq_some_iff.mp h
    cases heq
    refine ⟨rfl, hold fun ptr hptr => ?_⟩
    obtain ⟨c, hfind⟩ := mem_pointers_iff.mp hptr
    cases c with
    | h2 fd => exact mem_pointers_iff.mpr ⟨.h2 fd, hfind⟩
    | h3 cid' =>
      rcases lookup_foldl_tryEmplace [newCid] hfind with rfl | hm
      · exact mem_pointers_iff.mpr ⟨.h3 cid, hp⟩
      · exact mem_pointers_iff.mpr ⟨.h3 cid', hm⟩
  | eraseTcp fd =>
    cases h
    refine ⟨rfl, hold fun ptr hptr => ?_⟩
    exact (List.Sublist.append (filter_sublist.map _) (List.Sublist.refl _)).subset hptr
  | eraseQuic cids =>
    cases h
    refine ⟨rfl, hold fun ptr hptr => ?_⟩
    exact (List.Sublist.append (List.Sublist.refl _) (filter_sublist.map _)).subset hptr
  | rehash h3Sessions =>
    rw [step] at h
    split_ifs at h with hperm
    cases h
    refine ⟨rfl, hold fun ptr hptr => ?_⟩
    exact ((List.Perm.refl _).append (hperm.map _)).subset hptr
  | header | data | endStream | streamClosed =>
    obtain ⟨p, session, -, -, -, rfl⟩ := onStream_eq_some h
    exact ⟨rfl, hold fun _ => id⟩
  | frameSend | frameNotSend =>
    rw [step] at h
    obtain ⟨p, session, -, -, rfl⟩ := onSession_eq_some h
    exact ⟨rfl, hold fun _ => id⟩
  | response message =>
    cases h
    have hsame : (s.handleResponse message).cache = s.cache ∧
        (s.handleResponse message).pointers = s.pointers := by
      unfold handleResponse
      split
      · exact ⟨rfl, rfl⟩
      · split <;> exact ⟨rfl, rfl⟩
    exact ⟨hsame.1, hold fun ptr hptr => hsame.2 ▸ hptr⟩
  | getMessages c => cases he
  | notification topic message => cases he

/-! ## The server with its log -/

/-- The server and, for each topic, all notifications that were added. -/
structure Logged where
  server : Server
  log : Bytes → List BrokerMessage

namespace Logged

def record (l : Logged) : Event → Bytes → List BrokerMessage
  | .notification topic message =>
    if (l.server.cache.find? topic.toZmqTopic).isSome then
      update l.log topic.toZmqTopic (l.log topic.toZmqTopic ++ [message])
    else l.log
  | _ => l.log

def step (platform : Platform) (l : Logged) (e : Event) : Option (Logged × List BrokerMessage) :=
  (l.server.step platform e).map fun r => (⟨r.1, l.record e⟩, r.2)

def machine (platform : Platform) : StepFn Logged Event BrokerMessage := step platform

def initial (handlers : List Handler) : Logged := ⟨Server.initial handlers, fun _ => []⟩

variable {platform : Platform} {l : Logged} {e : Event} {out : List BrokerMessage}

theorem step_eq_some {l' : Logged} (h : l.step platform e = some (l', out)) :
    l.server.step platform e = some (l'.server, out) ∧ l'.log = l.record e := by
  obtain ⟨r, hstep, heq⟩ := map_eq_some_iff.mp h
  cases heq
  exact ⟨hstep, rfl⟩

/-- The cache is the end of the log and every poll waits for what is to come. -/
structure Inv (l : Logged) : Prop where
  cache : CacheOk l.server.cache l.log
  polls : ∀ poll, l.server.Polled poll →
    Waits (l.log poll.zmqTopic) poll ∧ (l.server.cache.find? poll.zmqTopic).isSome = true

/-- A collection of requests is defined - every read is in bounds - and exact. -/
theorem Inv.getMessages (platform : Platform) (h : l.Inv) (ptr : Nat) :
    ∃ w, Work.getMessages platform
        ⟨l.server.cache, l.server.nextRequestId, l.server.sessions ptr, []⟩ = some w ∧
      CollectedFor l.log
        (fun k request => (l.server.sessions ptr).requestsByStreamId.find? k = some request)
        ⟨l.server.cache, l.server.nextRequestId, l.server.sessions ptr, []⟩ w := by
  obtain ⟨w, hw⟩ := Work.getMessages_defined platform (w :=
    ⟨l.server.cache, l.server.nextRequestId, l.server.sessions ptr, []⟩) h.cache.inRange
  exact ⟨w, hw, getMessages_collected h.cache hw⟩

/-- A notification of a topic in the cache is defined and exact. -/
theorem Inv.notification (h : l.Inv) {topic : Topic} (message : BrokerMessage)
    {entry : SubscriptionCacheEntry} (hfind : l.server.cache.find? topic.toZmqTopic = some entry)
    (hfits : (l.log topic.toZmqTopic).length + 1 < 2 ^ 64) :
    ∃ s', l.server.handleNotification topic message = some s' ∧
      s'.cache = l.server.cache.insert topic.toZmqTopic (entry.add message) ∧
      s'.pointers = l.server.pointers ∧
      ∀ ptr ∈ l.server.pointers, Notification (l.log topic.toZmqTopic) topic.toZmqTopic message
        (l.server.sessions ptr) (s'.sessions ptr) := by
  have hent := (h.cache.cached _ _ hfind).add message hfits
  have hlen := hent.length
  have hlast := SubscriptionCacheEntry.toNat_lastIndex hent.inRange (fun hnil => by
    have := hent.isEmpty_iff.mp hnil
    simp at this)
  rw [length_append, length_singleton] at hlen
  obtain ⟨s', hnotify, hcache, hptrs, hvisited, -⟩ := notifySessions_exact
    (entry.add message).lastIndex hent (by omega) l.server.pointers
    { l.server with cache := l.server.cache.insert topic.toZmqTopic (entry.add message) }
    (find?_insert_self _ _ _) (by
      intro ptr hptr poll hpoll hz
      rw [← hz]
      exact (h.polls poll ⟨ptr, hptr, hpoll⟩).1)
  refine ⟨s', ?_, hcache, hptrs, hvisited⟩
  rw [Server.handleNotification, hfind]
  exact hnotify

theorem inv_getMessages {ptr : Nat} {w : Work Int} (hinv : l.Inv) (hptr : ptr ∈ l.server.pointers)
    (hw : Work.getMessages platform
      ⟨l.server.cache, l.server.nextRequestId, l.server.sessions ptr, []⟩ = some w) :
    Inv ⟨{ l.server.setSession ptr w.session with
      cache := w.cache
      nextRequestId := w.nextRequestId }, l.log⟩ := by
  have hcoll := getMessages_collected hinv.cache hw
  obtain ⟨_, hpolls, hreg⟩ := hcoll.polls
  refine ⟨hcoll.cache, ?_⟩
  have hold : ∀ poll, l.server.Polled poll → Waits (l.log poll.zmqTopic) poll ∧
      (w.cache.find? poll.zmqTopic).isSome = true := fun poll hpolled =>
    ⟨(hinv.polls poll hpolled).1, hcoll.covers _ (hinv.polls poll hpolled).2⟩
  rintro poll ⟨p, hp, hpoll⟩
  dsimp only [Server.setSession] at hpoll
  by_cases heq : p = ptr
  · rw [heq, update_self, hpolls] at hpoll
    rcases mem_append.mp hpoll with hpoll | hpoll
    · exact hold poll ⟨ptr, hptr, hpoll⟩
    · obtain ⟨_, -, ⟨_, _, -, -, hz, -, hwaits⟩, hcached⟩ := hreg poll hpoll
      exact ⟨by rw [hz]; exact hwaits, hcached⟩
  · rw [update_of_ne heq] at hpoll
    exact hold poll ⟨p, hp, hpoll⟩

theorem inv_notification {topic : Topic} {message : BrokerMessage} {s' : Server}
    (hinv : l.Inv) (hfits : (l.log topic.toZmqTopic).length + 1 < 2 ^ 64)
    (h : l.server.handleNotification topic message = some s') :
    Inv ⟨s', l.record (.notification topic message)⟩ := by
  cases hfind : l.server.cache.find? topic.toZmqTopic with
  | none =>
    rw [Server.handleNotification, hfind] at h
    cases h
    rw [record, hfind, if_neg (by simp)]
    exact hinv
  | some entry =>
    obtain ⟨_, hexact, hcache, hptrs, hvisited⟩ := hinv.notification message hfind hfits
    obtain rfl := some.inj (hexact.symm.trans h)
    rw [record, hfind, if_pos (by simp)]
    have hent := (hinv.cache.cached _ _ hfind).add message hfits
    refine ⟨by rw [hcache]; exact hinv.cache.insert _ hent, ?_⟩
    rintro poll ⟨ptr, hptr, hpoll⟩
    dsimp only at hptr hpoll ⊢
    rw [hptrs] at hptr
    rw [(hvisited ptr hptr).polls, mem_filter, decide_eq_true_iff] at hpoll
    obtain ⟨hpoll, hdue⟩ := hpoll
    obtain ⟨hwaits, hcached⟩ := hinv.polls poll ⟨ptr, hptr, hpoll⟩
    rw [hcache]
    by_cases heq : poll.zmqTopic = topic.toZmqTopic
    · rw [heq] at hwaits
      rw [heq, update_self, find?_insert_self]
      exact ⟨hwaits.snoc fun hlast => hdue ⟨heq, hlast⟩, rfl⟩
    · rw [update_of_ne heq, find?_insert_of_ne _ _ heq]
      exact ⟨hwaits, hcached⟩

theorem inv_step {l' : Logged} (h : l.step platform e = some (l', out)) (hinv : l.Inv)
    (hfits : ∀ topic message, e = .notification topic message →
      (l.log topic.toZmqTopic).length + 1 < 2 ^ 64) : l'.Inv := by
  obtain ⟨_, _⟩ := l'
  obtain ⟨hstep, hlog⟩ := step_eq_some h
  subst hlog
  by_cases he : e.leavesPolls = true
  · obtain ⟨hcache, hpolls⟩ := Server.step_leavesPolls hstep he
    have hsame : l.record e = l.log := by
      cases e <;> first | rfl | cases he
    rw [hsame]
    refine ⟨by rw [hcache]; exact hinv.cache, fun poll hpoll => ?_⟩
    rw [hcache]
    exact hinv.polls poll (hpolls poll hpoll)
  · cases e with
    | getMessages c =>
      obtain ⟨_, hfind, hget⟩ := bind_eq_some_iff.mp hstep
      obtain ⟨w, hw, heq⟩ := map_eq_some_iff.mp hget
      cases heq
      exact inv_getMessages hinv (Server.mem_pointers_iff.mpr ⟨c, hfind⟩) hw
    | notification topic message =>
      obtain ⟨_, hnotify, heq⟩ := map_eq_some_iff.mp hstep
      cases heq
      exact inv_notification hinv (hfits topic message rfl) hnotify
    | _ => exact absurd rfl he

variable (trace : List (Event × List BrokerMessage))

/-- How many notifications came. -/
def notifications : Nat :=
  trace.countP fun entry => match entry.1 with
    | .notification _ _ => true
    | _ => false

theorem notifications_snoc (e : Event)
    (out : List BrokerMessage) : notifications trace ≤ notifications (trace ++ [(e, out)]) := by
  rw [notifications, notifications, countP_append]
  exact le_add_right _ _

theorem notifications_notification (topic : Topic)
    (message : BrokerMessage) (out : List BrokerMessage) :
    notifications (trace ++ [(.notification topic message, out)]) = notifications trace + 1 := by
  rw [notifications, countP_append]
  rfl

theorem length_record {trace : List (Event × List BrokerMessage)} (h : ∀ zmqTopic, (l.log zmqTopic).length ≤ notifications trace)
    (zmqTopic : Bytes) : (l.record e zmqTopic).length ≤ notifications (trace ++ [(e, out)]) := by
  have hmono := notifications_snoc trace e out
  have hz := h zmqTopic
  cases e with
  | notification topic message =>
    have hcnt := notifications_notification trace topic message out
    rw [record, hcnt]
    split_ifs
    · by_cases heq : zmqTopic = topic.toZmqTopic
      · rw [heq, update_self, length_append, length_singleton]
        exact Nat.add_le_add_right (h _) 1
      · rw [update_of_ne heq]
        omega
    · omega
  | _ => exact hz.trans hmono

theorem inv_initial (handlers : List Handler) : (initial handlers).Inv := by
  refine ⟨⟨nofun, fun _ _ => rfl⟩, ?_⟩
  rintro _ ⟨_, hptr, -⟩
  cases hptr

theorem inv_run {handlers : List Handler} {trace : List (Event × List BrokerMessage)}
    (h : Run (machine platform) (fun _ _ => True) (initial handlers) trace l) :
    (∀ zmqTopic, (l.log zmqTopic).length ≤ notifications trace) ∧
      (notifications trace < 2 ^ 64 → l.Inv) := by
  induction h with
  | nil => exact ⟨fun _ => le_rfl, fun _ => inv_initial handlers⟩
  | @snoc trace _ e _ out _ _ hstep ih =>
    have hlog := (step_eq_some hstep).2
    have hmono := notifications_snoc trace e out
    refine ⟨fun z => by rw [hlog]; exact length_record ih.1 z, fun hfew => ?_⟩
    refine inv_step hstep (ih.2 (by omega)) ?_
    rintro topic message rfl
    have hz := ih.1 topic.toZmqTopic
    have hcnt := notifications_notification trace topic message out
    omega

/-- What holds of the server in a state: requests are collected and polls are
notified without a read out of bounds, and every answer is from the log. -/
structure PollsExact (platform : Platform) (l : Logged) (notifications : Nat) : Prop where
  collect : ∀ ptr ∈ l.server.pointers, ∃ w, Work.getMessages platform
      ⟨l.server.cache, l.server.nextRequestId, l.server.sessions ptr, []⟩ = some w ∧
    CollectedFor l.log
      (fun k request => (l.server.sessions ptr).requestsByStreamId.find? k = some request)
      ⟨l.server.cache, l.server.nextRequestId, l.server.sessions ptr, []⟩ w
  notify : notifications + 1 < 2 ^ 64 → ∀ topic message, ∃ s',
    l.server.handleNotification topic message = some s' ∧
    if (l.server.cache.find? topic.toZmqTopic).isSome then
      ∀ ptr ∈ l.server.pointers, Notification (l.log topic.toZmqTopic) topic.toZmqTopic message
        (l.server.sessions ptr) (s'.sessions ptr)
    else s' = l.server

end Logged

end Rest

end OpenCmw
