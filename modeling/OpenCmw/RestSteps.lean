import OpenCmw.RestServer

/-!
# What the steps of a REST session do

Each function of `RestSession` characterised once: what it adds to the
responses handed to the library, to the pending requests and to the pending
polls, and that it leaves the rest alone. `Treated` is the description of one
round of `getMessages`, `Collects` that of the whole loop.

A read of the cache is in bounds if the range read lies between the first and
the next index (`batchParts_eq`); that the two indices did not wrap around is
`InRange`. With it every request can be worked on, whatever it asks for.
-/

namespace OpenCmw

open Or (inl inr)
open Option (map_eq_some_iff some bind_eq_some_iff)
open UInt64 (toNat_add toNat_ofNat' toNat_sub toNat_one)
open UInt64

namespace Rest

open LongPolling

variable {StreamId : Type} [LinearOrder StreamId]

/-! ## Responses -/

namespace Session

@[simp] theorem sendResponse_submitted (s : Session StreamId) (streamId : StreamId)
    (response : Response) : (s.sendResponse streamId response).library.submitted
      = s.library.submitted ++ [(streamId, response)] := rfl

end Session

/-! ## Indices -/

theorem toNat_max (a b : UInt64) : (max a b).toNat = max a.toNat b.toNat := by
  show (if a ≤ b then b else a).toNat = max a.toNat b.toNat
  split_ifs with h
  · rw [max_eq_right (le_iff_toNat_le.mp h)]
  · have hlt := le_iff_toNat_le.not.mp h
    rw [max_eq_left (by omega)]

namespace SubscriptionCacheEntry

/-- The indices of the entry did not wrap around. -/
def InRange (entry : SubscriptionCacheEntry) : Prop :=
  entry.firstIndex.toNat + entry.messages.length < 2 ^ 64
  deriving Decidable

theorem inRange_empty : InRange {} := by decide

theorem toNat_nextIndex {entry : SubscriptionCacheEntry} (h : entry.InRange) :
    entry.nextIndex.toNat = entry.firstIndex.toNat + entry.messages.length := by
  unfold InRange at h
  rw [nextIndex, toNat_add, toNat_ofNat']
  omega

theorem toNat_lastIndex {entry : SubscriptionCacheEntry} (h : entry.InRange)
    (hne : entry.messages ≠ []) :
    entry.lastIndex.toNat + 1 = entry.firstIndex.toNat + entry.messages.length := by
  have hpos := List.length_pos_iff.mpr hne
  unfold InRange at h
  rw [lastIndex, toNat_sub, toNat_add, toNat_ofNat', toNat_one]
  omega

end SubscriptionCacheEntry

theorem overflows_iff {index count : UInt64} (hcnt : 1 ≤ count.toNat) :
    Session.overflows index count = true ↔ 2 ^ 64 ≤ index.toNat + (count.toNat - 1) := by
  have hlt := count.toNat_lt
  rw [Session.overflows, decide_eq_true_iff, gt_iff_lt, lt_iff_toNat_lt,
    toNat_sub, toNat_sub, toNat_uint64Max, toNat_one]
  omega

theorem toNat_lastRequested (index : UInt64) {count : UInt64} (hcnt : 1 ≤ count.toNat)
    (h : index.toNat + (count.toNat - 1) < 2 ^ 64) :
    (index + count - 1).toNat = index.toNat + (count.toNat - 1) := by
  rw [toNat_sub, toNat_add, toNat_one]
  omega

/-! ## Batches -/

namespace Session

/-- The parts for messages whose first one has index `first`. -/
def partsFrom (first : Nat) (messages : List BrokerMessage) : List BatchPart :=
  messages.mapIdx fun k message => batchPart (ofNat (first + k)) message

theorem mapM_eq_some_map {α β : Type} {f : α → Option β} {g : α → β} :
    ∀ {l : List α}, (∀ x ∈ l, f x = some (g x)) → l.mapM f = some (l.map g)
  | [], _ => rfl
  | x :: l, h => by
    rw [List.mapM_cons, h x List.mem_cons_self,
      mapM_eq_some_map fun y hy => h y (List.mem_cons_of_mem x hy)]
    rfl

variable {entry : SubscriptionCacheEntry} {first count : UInt64}

theorem batchParts_eq (h : entry.InRange) (hfirst : entry.firstIndex.toNat ≤ first.toNat)
    (hlast : first.toNat + count.toNat ≤ entry.firstIndex.toNat + entry.messages.length) :
    batchParts entry first count = some (partsFrom first.toNat
      ((entry.messages.drop (first.toNat - entry.firstIndex.toNat)).take count.toNat)) := by
  unfold SubscriptionCacheEntry.InRange at h
  have hoffset : ∀ k < count.toNat, (first - entry.firstIndex + ofNat k).toNat
        = first.toNat - entry.firstIndex.toNat + k := by
    intro k hk
    rw [toNat_add, toNat_sub, toNat_ofNat']
    omega
  have hidx : ∀ k < count.toNat, first + ofNat k = ofNat (first.toNat + k) := by
    intro k hk
    rw [← UInt64.toNat_inj, toNat_add, toNat_ofNat', toNat_ofNat']
    omega
  have hread : ∀ k ∈ List.range count.toNat,
      entry.messages[(first - entry.firstIndex + ofNat k).toNat]?.map
          (batchPart (first + ofNat k))
        = some ((partsFrom first.toNat
          ((entry.messages.drop (first.toNat - entry.firstIndex.toNat)).take count.toNat)).getD k
            (batchPart 0 {})) := by
    intro k hk
    have hk := List.mem_range.mp hk
    have hin : first.toNat - entry.firstIndex.toNat + k < entry.messages.length := by omega
    rw [hoffset k hk, hidx k hk, List.getElem?_eq_getElem hin, Option.map_some,
      List.getD_eq_getElem?_getD, partsFrom, List.getElem?_mapIdx,
      List.getElem?_take_of_lt hk, List.getElem?_drop, List.getElem?_eq_getElem hin]
    rfl
  rw [batchParts, mapM_eq_some_map hread]
  refine congrArg some (List.ext_getElem ?_ fun k h₁ h₂ => ?_)
  · simp only [partsFrom, List.length_map, List.length_range, List.length_mapIdx,
      List.length_take, List.length_drop]
    omega
  · rw [List.getElem_map, List.getElem_range, List.getD_eq_getElem?_getD,
      List.getElem?_eq_getElem h₂, Option.getD_some]

theorem redirect_eq (platform : Platform) (s : Session StreamId) (streamId : StreamId)
    (topic : Topic) (index : UInt64) (batch : Option Bytes) :
    ∃ location, s.respondWithLongPollingRedirect platform streamId (topic.toMdpTopic platform)
      index batch = some (s.sendResponse streamId (redirectResponse location)) := by
  have hfactory : (redirectFactory (topic.toMdpTopic platform) index batch).PathOnly := by
    have htopic := topic.toMdpTopic_pathOnly platform
    cases batch with
    | none => exact htopic.addQueryParameter _ _
    | some batch => exact (htopic.addQueryParameter _ _).addQueryParameter _ _
  obtain ⟨location, hbuild, -⟩ := hfactory.build_eq_ok platform
  refine ⟨location.str, ?_⟩
  rw [respondWithLongPollingRedirect, hbuild]

/-! ## Polls -/

theorem respondToLongPollBatch_eq_some {s s' : Session StreamId} {streamId : StreamId} (h : s.respondToLongPollBatch streamId entry first count = some s') :
    ∃ response, s' = s.sendResponse streamId response := by
  obtain ⟨_, -, rfl⟩ := map_eq_some_iff.mp h
  exact ⟨_, rfl⟩

/-- A poll is answered or registered. -/
theorem answerPoll_eq_some {platform : Platform} {s s' : Session StreamId} {streamId : StreamId}
    {topic : Topic} {index : UInt64} {batch : LongPollingBatchRequest}
    (h : s.answerPoll platform streamId topic entry index batch = some s') :
    (∃ response, s' = s.sendResponse streamId response) ∨
      ∃ poll, poll.streamId = streamId ∧ s' = s.addPoll poll := by
  have hpoll : ∀ {zmqTopic : Bytes} {i : UInt64},
      some (s.addPoll ⟨zmqTopic, i, batch, streamId⟩) = some s' →
        ∃ poll, poll.streamId = streamId ∧ s' = s.addPoll poll := by
    intro zmqTopic i h
    exact ⟨_, rfl, (some.inj h).symm⟩
  unfold answerPoll at h
  split at h
  · split_ifs at h with hready
    · exact inl (respondToLongPollBatch_eq_some h)
    · exact inr (hpoll h)
  · dsimp only at h
    generalize (if entry.messages.isEmpty then index else max index entry.firstIndex) = first at h
    by_cases hover : overflows first batch.count = true
    · rw [if_pos hover] at h
      exact inl ⟨_, (some.inj h).symm⟩
    · rw [if_neg hover] at h
      split_ifs at h with hwait
      · exact inr (hpoll h)
      · exact inl (respondToLongPollBatch_eq_some h)
  · split_ifs at h with hold hwait
    · obtain ⟨_, hredir⟩ := redirect_eq platform s streamId topic entry.nextIndex none
      exact inl ⟨_, some.inj (h.symm.trans hredir)⟩
    · exact inr (hpoll h)
    · obtain ⟨_, -, rfl⟩ := map_eq_some_iff.mp h
      exact inl ⟨_, rfl⟩

/-- A read that stays inside the entry, whether or not its indices wrapped
around. -/
theorem respondToLongPollBatch_defined (s : Session StreamId) (streamId : StreamId) (hlen : entry.messages.length < 2 ^ 64)
    (h : (first - entry.firstIndex).toNat + count.toNat ≤ entry.messages.length) :
    ∃ s', s.respondToLongPollBatch streamId entry first count = some s' := by
  have hread : ∀ k ∈ List.range count.toNat,
      entry.messages[(first - entry.firstIndex + ofNat k).toNat]?.map
          (batchPart (first + ofNat k))
        = some (batchPart (first + ofNat k)
          (entry.messages.getD (first - entry.firstIndex + ofNat k).toNat {})) := by
    intro k hk
    have hk := List.mem_range.mp hk
    have hin : (first - entry.firstIndex + ofNat k).toNat < entry.messages.length := by
      rw [toNat_add, toNat_ofNat']
      omega
    rw [List.getD_eq_getElem?_getD, List.getElem?_eq_getElem hin]
    rfl
  rw [respondToLongPollBatch, batchParts, mapM_eq_some_map hread]
  exact ⟨_, rfl⟩

theorem answerPoll_defined (platform : Platform) (s : Session StreamId) (streamId : StreamId)
    (topic : Topic) (hlen : entry.messages.length < 2 ^ 64)
    (index : UInt64) (batch : LongPollingBatchRequest) :
    ∃ s', s.answerPoll platform streamId topic entry index batch = some s' := by
  have hfirst := entry.firstIndex.toNat_lt
  have hmax := toNat_max index entry.firstIndex
  have hnext : entry.nextIndex.toNat =
      (entry.firstIndex.toNat + entry.messages.length) % 2 ^ 64 := by
    rw [SubscriptionCacheEntry.nextIndex, toNat_add, toNat_ofNat']
    omega
  have hlast : entry.lastIndex.toNat =
      (entry.firstIndex.toNat + entry.messages.length + (2 ^ 64 - 1)) % 2 ^ 64 := by
    rw [SubscriptionCacheEntry.lastIndex, toNat_sub, toNat_add, toNat_ofNat', toNat_one]
    omega
  unfold answerPoll
  split
  · split_ifs with hready
    · simp only [Bool.and_eq_true, Bool.not_eq_true', List.isEmpty_eq_false_iff,
        decide_eq_true_iff, le_iff_toNat_le] at hready
      have hpos := List.length_pos_iff.mpr hready.1
      refine respondToLongPollBatch_defined s streamId hlen ?_
      rw [toNat_sub, toNat_sub]
      omega
    · exact ⟨_, rfl⟩
  · dsimp only
    by_cases hemp : entry.messages.isEmpty = true
    · rw [hemp, if_pos rfl, Bool.true_or, if_pos rfl]
      split_ifs
      · exact ⟨_, rfl⟩
      · exact ⟨_, rfl⟩
    · rw [if_neg hemp]
      by_cases hover : overflows (max index entry.firstIndex) batch.count = true
      · rw [if_pos hover]
        exact ⟨_, rfl⟩
      · rw [if_neg hover]
        rw [overflows_iff batch.inRange.1] at hover
        split_ifs with hwait
        · exact ⟨_, rfl⟩
        · have hcnt := batch.inRange.1
          have hpos : 0 < entry.messages.length :=
            List.length_pos_iff.mpr (by simpa using hemp)
          simp only [Bool.or_eq_true, hemp, decide_eq_true_iff, false_or, gt_iff_lt,
            lt_iff_toNat_lt, Bool.false_eq_true] at hwait
          rw [toNat_lastRequested _ hcnt (by omega)] at hwait
          refine respondToLongPollBatch_defined s streamId hlen ?_
          rw [toNat_sub]
          omega
  · split_ifs with hold hwait
    · obtain ⟨_, hredir⟩ := redirect_eq platform s streamId topic entry.nextIndex none
      exact ⟨_, hredir⟩
    · exact ⟨_, rfl⟩
    · simp only [Bool.or_eq_true, List.isEmpty_iff, decide_eq_true_iff, gt_iff_lt, not_or,
        lt_iff_toNat_lt] at hold hwait
      have hpos := List.length_pos_iff.mpr hwait.1
      have hin : (index - entry.firstIndex).toNat < entry.messages.length := by
        rw [toNat_sub]
        omega
      rw [List.getElem?_eq_getElem hin]
      exact ⟨_, rfl⟩

end Session

/-! ## One round of `getMessages` -/

/-- What a round did for the request it worked on. -/
inductive Treated (w w' : Work StreamId) (streamId : StreamId) (request : Request) : Prop
  | responded (response : Response)
      (hsession : w'.session = w.session.sendResponse streamId response)
      (hmessages : w.messages <+: w'.messages)
  | requested (message : BrokerMessage)
      (hmethod : request.method = .get ∨ request.method = .post)
      (hsession : w'.session = { w.session with
        pendingRequests := w.session.pendingRequests ++ [(w.nextRequestId, streamId)] })
      (hmessages : w'.messages = w.messages ++ [message])
      (hid : message.clientRequestID = toDec w.nextRequestId.toNat)
  | polled (poll : PendingPoll StreamId) (hmethod : request.method = .longPoll)
      (hstream : poll.streamId = streamId) (hsession : w'.session = w.session.addPoll poll)
      (hmessages : w.messages <+: w'.messages)

namespace Work

theorem requireEntry_session (platform : Platform) (w : Work StreamId) (topic : Topic) :
    (w.requireEntry platform topic).2.session = w.session := by
  unfold requireEntry
  split <;> rfl

theorem requireEntry_messages (platform : Platform) (w : Work StreamId) (topic : Topic) :
    w.messages <+: (w.requireEntry platform topic).2.messages := by
  unfold requireEntry
  split
  · exact List.prefix_rfl
  · exact List.prefix_append _ _

variable {platform : Platform} {w : Work StreamId} {streamId : StreamId} {request : Request}

/-- A poll that was read: it is answered or registered, or its client is sent
on to a number. -/
theorem processLongPollRequest_eq_some {w' : Work StreamId} {topic : Topic}
    (h : w.processLongPollRequest platform streamId request topic = some w') :
    (∃ response, parsePoll request = .error response ∧
      w' = { w with session := w.session.sendResponse streamId response }) ∨
    (∃ batch location, parsePoll request = .ok (none, batch) ∧
      w' = { (w.requireEntry platform topic).2 with
        session := w.session.sendResponse streamId (Session.redirectResponse location) }) ∨
    ∃ index batch session, parsePoll request = .ok (some index, batch) ∧
      w.session.answerPoll platform streamId topic (w.requireEntry platform topic).1 index batch
        = some session ∧
      w' = { (w.requireEntry platform topic).2 with session } := by
  unfold processLongPollRequest at h
  split at h
  · rename_i response hparse
    exact inl ⟨response, hparse, (some.inj h).symm⟩
  · rename_i parsedIndex batch hparse
    dsimp only at h
    rw [requireEntry_session] at h
    obtain ⟨session, hsess, rfl⟩ := map_eq_some_iff.mp h
    cases parsedIndex with
    | none =>
      obtain ⟨location, hredir⟩ := Session.redirect_eq platform w.session streamId topic _ _
      rw [hredir] at hsess
      cases hsess
      exact inr (inl ⟨batch, location, hparse, rfl⟩)
    | some index => exact inr (inr ⟨index, batch, session, hparse, hsess, rfl⟩)

theorem handleRequest_treated {w' : Work StreamId} (h : w.handleRequest platform (streamId, request) = some w') :
    Treated w w' streamId request := by
  have hgetSet : ∀ topic, w.processGetSetRequest platform streamId request topic = w' →
      request.method = .get ∨ request.method = .post → Treated w w' streamId request := by
    rintro topic rfl hmeth
    exact .requested _ hmeth rfl rfl rfl
  unfold handleRequest at h
  dsimp only at h
  split at h
  · cases h
    exact .responded _ rfl List.prefix_rfl
  · rename_i hmeth
    obtain ⟨topic, -, hw⟩ := map_eq_some_iff.mp h
    exact hgetSet topic hw (inl hmeth)
  · rename_i hmeth
    obtain ⟨topic, -, hw⟩ := map_eq_some_iff.mp h
    exact hgetSet topic hw (inr hmeth)
  · rename_i hmeth
    obtain ⟨topic, -, hpoll⟩ := bind_eq_some_iff.mp h
    have hmsgs := requireEntry_messages platform w topic
    rcases processLongPollRequest_eq_some hpoll with
      ⟨response, -, rfl⟩ | ⟨batch, location, -, rfl⟩ | ⟨index, batch, session, -, hanswer, rfl⟩
    · exact .responded response rfl List.prefix_rfl
    · exact .responded _ rfl hmsgs
    · rcases Session.answerPoll_eq_some hanswer with ⟨response, rfl⟩ | ⟨poll, hstream, rfl⟩
      · exact .responded response rfl hmsgs
      · exact .polled poll hmeth hstream rfl hmsgs
  · cases h
    exact .responded _ rfl List.prefix_rfl

/-- No entry of the cache has wrapped around. -/
def CacheInRange (cache : SubscriptionCache) : Prop :=
  ∀ zmqTopic entry, cache.find? zmqTopic = some entry → entry.InRange

theorem requireEntry_inRange (platform : Platform) (topic : Topic) (h : CacheInRange w.cache) :
    (w.requireEntry platform topic).1.InRange ∧
      CacheInRange (w.requireEntry platform topic).2.cache := by
  unfold requireEntry
  split
  · rename_i entry hfind
    exact ⟨h _ _ hfind, h⟩
  · refine ⟨SubscriptionCacheEntry.inRange_empty, fun zmqTopic entry hfind => ?_⟩
    by_cases hz : zmqTopic = topic.toZmqTopic
    · rw [hz, SortedMap.find?_insert_self] at hfind
      cases hfind
      exact SubscriptionCacheEntry.inRange_empty
    · rw [SortedMap.find?_insert_of_ne _ _ hz] at hfind
      exact h _ _ hfind

/-- Every poll can be worked on. -/
theorem processLongPollRequest_isSome (platform : Platform) (w : Work StreamId)
    (streamId : StreamId) (request : Request) (topic : Topic)
    (hlen : (w.requireEntry platform topic).1.messages.length < 2 ^ 64) :
    ∃ w', w.processLongPollRequest platform streamId request topic = some w' := by
  unfold processLongPollRequest
  split
  · exact ⟨_, rfl⟩
  · rename_i parsedIndex batch hparse
    dsimp only
    rw [requireEntry_session]
    cases parsedIndex with
    | none =>
      obtain ⟨_, hredir⟩ := Session.redirect_eq platform w.session streamId topic
        (if request.longPollIndex = some (str "Next") then
            (w.requireEntry platform topic).1.nextIndex
          else if (w.requireEntry platform topic).1.messages.isEmpty then
            (w.requireEntry platform topic).1.nextIndex
          else (w.requireEntry platform topic).1.lastIndex) request.longPollBatch
      rw [hredir]
      exact ⟨_, rfl⟩
    | some index =>
      obtain ⟨_, hsess⟩ := w.session.answerPoll_defined platform streamId topic
        hlen index batch
      dsimp only
      rw [hsess]
      exact ⟨_, rfl⟩

theorem processLongPollRequest_defined {topic : Topic} (h : CacheInRange w.cache) :
    ∃ w', w.processLongPollRequest platform streamId request topic = some w' ∧
      CacheInRange w'.cache := by
  obtain ⟨hent, hcache⟩ := requireEntry_inRange platform topic h
  have hlen : (w.requireEntry platform topic).1.messages.length < 2 ^ 64 := by
    unfold SubscriptionCacheEntry.InRange at hent
    omega
  obtain ⟨w', hw'⟩ := processLongPollRequest_isSome platform w streamId request topic hlen
  refine ⟨w', hw', ?_⟩
  rcases processLongPollRequest_eq_some hw' with
    ⟨response, -, rfl⟩ | ⟨batch, location, -, rfl⟩ | ⟨index, batch, session, -, -, rfl⟩
  · exact h
  · exact hcache
  · exact hcache

theorem handleRequest_defined (platform : Platform)
    (h : CacheInRange w.cache) (entry : StreamId × Request) :
    ∃ w', w.handleRequest platform entry = some w' ∧ CacheInRange w'.cache := by
  obtain ⟨_, request⟩ := entry
  have htopic : request.method ≠ .invalid → ∃ topic, request.topic = some topic := by
    intro hmeth
    cases htopic : request.topic with
    | none => exact absurd (request.topic_set htopic) hmeth
    | some topic => exact ⟨topic, rfl⟩
  unfold handleRequest
  dsimp only
  split
  · exact ⟨_, rfl, h⟩
  · rename_i hmeth
    obtain ⟨topic, htopic⟩ := htopic (by simp [hmeth])
    rw [htopic]
    exact ⟨_, rfl, h⟩
  · rename_i hmeth
    obtain ⟨topic, htopic⟩ := htopic (by simp [hmeth])
    rw [htopic]
    exact ⟨_, rfl, h⟩
  · rename_i hmeth
    obtain ⟨topic, htopic⟩ := htopic (by simp [hmeth])
    rw [htopic, Option.bind_some]
    exact processLongPollRequest_defined h
  · exact ⟨_, rfl, h⟩

end Work

/-! ## The loop of `getMessages` -/

/-- The rounds for a list of requests. -/
inductive Collects : List (StreamId × Request) → Work StreamId → Work StreamId → Prop
  | nil {w} : Collects [] w w
  | cons {streamId request l w w₁ w'} (htreated : Treated w w₁ streamId request)
      (hrest : Collects l w₁ w') : Collects ((streamId, request) :: l) w w'

namespace Collects

theorem of_foldlM {platform : Platform} : ∀ {l : List (StreamId × Request)} {w w' : Work StreamId},
    l.foldlM (Work.handleRequest platform) w = some w' → Collects l w w'
  | [], w, w', h => by
    cases h
    exact .nil
  | (streamId, request) :: l, w, w', h => by
    rw [List.foldlM_cons] at h
    obtain ⟨_, hrnd, hrest⟩ := bind_eq_some_iff.mp h
    exact .cons (Work.handleRequest_treated hrnd) (of_foldlM hrest)

end Collects

namespace Work

theorem foldlM_defined (platform : Platform) :
    ∀ (l : List (StreamId × Request)) {w : Work StreamId}, CacheInRange w.cache →
      ∃ w', l.foldlM (handleRequest platform) w = some w'
  | [], w, _ => ⟨w, rfl⟩
  | entry :: l, w, h => by
    obtain ⟨_, hrnd, hcache⟩ := handleRequest_defined platform h entry
    obtain ⟨w', hrest⟩ := foldlM_defined platform l hcache
    refine ⟨w', ?_⟩
    rw [List.foldlM_cons, hrnd]
    exact hrest

/-- The requests before the partition point are worked on and removed. -/
theorem getMessages_eq_some {platform : Platform} {w w' : Work StreamId}
    (h : w.getMessages platform = some w') :
    ∃ w₁, (w.session.requestsByStreamId.entries.take w.session.completeEnd).foldlM
        (handleRequest platform) w = some w₁ ∧
      w' = { w₁ with session := { w₁.session with
        requestsByStreamId := w₁.session.requestsByStreamId.eraseFirst w.session.completeEnd } } := by
  obtain ⟨w₁, hfold, hw⟩ := map_eq_some_iff.mp h
  exact ⟨w₁, hfold, hw.symm⟩

theorem getMessages_defined (platform : Platform) {w : Work StreamId} (h : CacheInRange w.cache) :
    ∃ w', w.getMessages platform = some w' := by
  obtain ⟨_, hfold⟩ := foldlM_defined platform
    (w.session.requestsByStreamId.entries.take w.session.completeEnd) h
  exact ⟨_, by rw [getMessages]; dsimp only; rw [hfold]; rfl⟩

end Work

/-! ## Notifications -/

/-- What a notification can do to a session: polls go, and the responses go to
streams of polls. -/
structure Notified (t t' : Session StreamId) : Prop where
  requests : t'.requestsByStreamId = t.requestsByStreamId
  pendingRequests : t'.pendingRequests = t.pendingRequests
  closed : t'.library.closed = t.library.closed
  polls : t'.pendingPolls.Sublist t.pendingPolls
  submitted : ∃ responses, t'.library.submitted = t.library.submitted ++ responses ∧
    ∀ r ∈ responses, ∃ poll ∈ t.pendingPolls, poll.streamId = r.1

theorem Notified.refl (t : Session StreamId) : Notified t t :=
  ⟨rfl, rfl, rfl, List.Sublist.refl _, [], (List.append_nil _).symm, nofun⟩

theorem Notified.trans {t t₁ t' : Session StreamId} (h : Notified t t₁) (h' : Notified t₁ t') :
    Notified t t' := by
  refine ⟨h'.requests.trans h.requests, h'.pendingRequests.trans h.pendingRequests,
    h'.closed.trans h.closed, h'.polls.trans h.polls, ?_⟩
  obtain ⟨responses, hsub, hstreams⟩ := h.submitted
  obtain ⟨responses', hsub', hstreams'⟩ := h'.submitted
  refine ⟨responses ++ responses', by rw [hsub', hsub, List.append_assoc], fun r hr => ?_⟩
  rcases List.mem_append.mp hr with hr | hr
  · exact hstreams r hr
  · obtain ⟨poll, hpoll, hstream⟩ := hstreams' r hr
    exact ⟨poll, h.polls.subset hpoll, hstream⟩

namespace Session

variable {cache : SubscriptionCache} {message : BrokerMessage}

theorem answerReady_eq_some {s s' : Session StreamId} {poll : PendingPoll StreamId}
    (h : s.answerReady cache message poll = some s') :
    s' = s ∨ ∃ response, s' = s.sendResponse poll.streamId response := by
  unfold answerReady at h
  by_cases hnone : poll.batch.mode = .none
  · rw [if_pos hnone] at h
    exact inr ⟨_, (some.inj h).symm⟩
  · rw [if_neg hnone] at h
    split at h
    · exact inl (some.inj h).symm
    · split_ifs at h with hall
      · exact inr (respondToLongPollBatch_eq_some h)
      · exact inr (respondToLongPollBatch_eq_some h)

/-- The loop over the polls: those kept, and what was sent for the others. -/
theorem notifyPolls_eq_some {zmqTopic : Bytes} {index : UInt64} : ∀ {polls kept : List (PendingPoll StreamId)}
    {s s' : Session StreamId}, notifyPolls cache zmqTopic index message polls s = some (kept, s') →
      kept.Sublist polls ∧ s'.requestsByStreamId = s.requestsByStreamId ∧
      s'.pendingRequests = s.pendingRequests ∧ s'.library.closed = s.library.closed ∧
      ∃ responses, s'.library.submitted = s.library.submitted ++ responses ∧
        ∀ r ∈ responses, ∃ poll ∈ polls, poll.streamId = r.1
  | [], kept, s, s', h => by
    cases h
    exact ⟨List.Sublist.refl _, rfl, rfl, rfl, [], (List.append_nil _).symm, nofun⟩
  | poll :: polls, kept, s, s', h => by
    rw [notifyPolls] at h
    split_ifs at h with hready
    · obtain ⟨s₁, hanswer, hrest⟩ := bind_eq_some_iff.mp h
      obtain ⟨hkept, hreq, hpend, hclosed, responses, hsub, hstreams⟩ :=
        notifyPolls_eq_some hrest
      have hlater : ∀ r ∈ responses, ∃ p ∈ poll :: polls, p.streamId = r.1 := fun r hr =>
        (hstreams r hr).imp fun p hp => ⟨List.mem_cons_of_mem _ hp.1, hp.2⟩
      rcases answerReady_eq_some hanswer with rfl | ⟨response, rfl⟩
      · exact ⟨hkept.cons _, hreq, hpend, hclosed, responses, hsub, hlater⟩
      · refine ⟨hkept.cons _, hreq, hpend, hclosed, (poll.streamId, response) :: responses,
          by rw [hsub, sendResponse_submitted, List.append_assoc]; rfl, fun r hr => ?_⟩
        rcases List.mem_cons.mp hr with rfl | hr
        · exact ⟨poll, List.mem_cons_self, rfl⟩
        · exact hlater r hr
    · obtain ⟨⟨_, s₁⟩, hrest, heq⟩ := map_eq_some_iff.mp h
      cases heq
      obtain ⟨hkept, hreq, hpend, hclosed, responses, hsub, hstreams⟩ :=
        notifyPolls_eq_some hrest
      exact ⟨hkept.cons_cons _, hreq, hpend, hclosed, responses, hsub, fun r hr =>
        (hstreams r hr).imp fun p hp => ⟨List.mem_cons_of_mem _ hp.1, hp.2⟩⟩

theorem handleNotification_notified {zmqTopic : Bytes} {index : UInt64} {t t' : Session StreamId}
    (h : t.handleNotification cache zmqTopic index message = some t') : Notified t t' := by
  obtain ⟨⟨_, _⟩, hloop, rfl⟩ := map_eq_some_iff.mp h
  obtain ⟨hkept, hreq, hpend, hclosed, hsub⟩ := notifyPolls_eq_some hloop
  exact ⟨hreq, hpend, hclosed, hkept, hsub⟩

/-! ## The end of a request -/

/-- Completing a request touches nothing but that request. -/
theorem processCompletedRequest_eq_some {platform : Platform} {handlers : List Handler}
    {t t' : Session StreamId} {streamId : StreamId}
    (h : t.processCompletedRequest platform handlers streamId = some t') :
    t'.pendingRequests = t.pendingRequests ∧ t'.pendingPolls = t.pendingPolls ∧
      t'.library.closed = t.library.closed ∧
      ∀ k, k ≠ streamId → t'.requestsByStreamId.find? k = t.requestsByStreamId.find? k := by
  have hanswered : ∀ {response : Response},
      some ((t.sendResponse streamId response).eraseRequest streamId) = some t' →
        t'.pendingRequests = t.pendingRequests ∧ t'.pendingPolls = t.pendingPolls ∧
        t'.library.closed = t.library.closed ∧
        ∀ k, k ≠ streamId → t'.requestsByStreamId.find? k = t.requestsByStreamId.find? k := by
    intro response h
    cases h
    exact ⟨rfl, rfl, rfl, fun k hk => SortedMap.find?_erase_of_ne _ hk⟩
  unfold processCompletedRequest at h
  split at h
  · cases h
  · dsimp only at h
    split at h
    · exact hanswered h
    · split at h
      · cases h
      · exact hanswered h
      · cases h
        exact ⟨rfl, rfl, rfl, fun k hk => SortedMap.find?_insert_of_ne _ _ hk⟩

end Session

/-! ## Steps of the server -/

namespace Server

@[simp] theorem setSession_sessions (s : Server) (ptr : Nat) (session : Session Int) :
    (s.setSession ptr session).sessions = Function.update s.sessions ptr session := rfl

theorem notifySessions_notified {zmqTopic : Bytes} {index : UInt64} {message : BrokerMessage} :
    ∀ {ptrs : List Nat} {s s' : Server}, notifySessions zmqTopic index message ptrs s = some s' →
        ∀ ptr, Notified (s.sessions ptr) (s'.sessions ptr)
  | [], s, s', h, ptr => by
    cases h
    exact .refl _
  | p :: ptrs, s, s', h, ptr => by
    obtain ⟨_, hsess, hrest⟩ := bind_eq_some_iff.mp h
    refine Notified.trans ?_ (notifySessions_notified hrest ptr)
    rw [setSession_sessions]
    by_cases hptr : ptr = p
    · subst hptr
      rw [Function.update_self]
      exact Session.handleNotification_notified hsess
    · rw [Function.update_of_ne hptr]
      exact .refl _

/-- How an event changes the session at an address, if it does. -/
inductive Touched (platform : Platform) (s : Server) (ptr : Nat) : Event → Session Int → Prop
  | same {e} : Touched platform s ptr e (s.sessions ptr)
  | acceptTcp {fd accepts} :
      Touched platform s ptr (.acceptTcp fd ptr accepts) { library := { accepts } }
  | acceptQuic {cids accepts} :
      Touched platform s ptr (.acceptQuic cids ptr accepts) { library := { accepts } }
  | header {c streamId name value} (hopen : streamId ∉ (s.sessions ptr).library.closed) :
      Touched platform s ptr (.header c streamId name value)
        ((s.sessions ptr).addHeader streamId name value)
  | data {c streamId data} (hopen : streamId ∉ (s.sessions ptr).library.closed) :
      Touched platform s ptr (.data c streamId data) ((s.sessions ptr).addData streamId data)
  | endStream {c streamId t} (hopen : streamId ∉ (s.sessions ptr).library.closed)
      (h : (s.sessions ptr).processCompletedRequest platform s.handlers streamId = some t) :
      Touched platform s ptr (.endStream c streamId) t
  | getMessages {c w}
      (h : Work.getMessages platform ⟨s.cache, s.nextRequestId, s.sessions ptr, []⟩ = some w) :
      Touched platform s ptr (.getMessages c) w.session
  | frameSend {fd streamId endStream} : Touched platform s ptr (.frameSend fd streamId endStream)
      ((s.sessions ptr).frameSendCallback streamId endStream)
  | frameNotSend {fd streamId isData} : Touched platform s ptr (.frameNotSend fd streamId isData)
      ((s.sessions ptr).frameNotSendCallback streamId isData)
  | streamClosed {fd streamId} (hfind : s.find (.h2 fd) = some ptr)
      (hopen : streamId ∉ (s.sessions ptr).library.closed) :
      Touched platform s ptr (.streamClosed fd streamId)
        ((s.sessions ptr).streamClosedCallback streamId)
  | response {message} (id : UInt64) : Touched platform s ptr (.response message)
      ((s.sessions ptr).handleResponse id message)
  | notification {topic message t} (h : Notified (s.sessions ptr) t) :
      Touched platform s ptr (.notification topic message) t

variable {s s' : Server} {out : List BrokerMessage}

theorem touched_update {platform : Platform} {e : Event} {p : Nat}
    {session : Session Int} (h : Touched platform s p e session) (ptr : Nat) :
    Touched platform s ptr e (Function.update s.sessions p session ptr) := by
  by_cases hptr : ptr = p
  · subst hptr
    rwa [Function.update_self]
  · rw [Function.update_of_ne hptr]
    exact .same

theorem onSession_eq_some {c : Connection} {callback : Session Int → Option (Session Int)}
    (h : s.onSession c callback = some (s', out)) :
    ∃ p session, s.find c = some p ∧ callback (s.sessions p) = some session ∧
      s' = s.setSession p session := by
  obtain ⟨p, hfind, h⟩ := bind_eq_some_iff.mp h
  obtain ⟨session, hsess, h⟩ := map_eq_some_iff.mp h
  cases h
  exact ⟨p, session, hfind, hsess, rfl⟩

theorem onStream_eq_some {c : Connection} {streamId : Int} {callback : Session Int → Option (Session Int)}
    (h : s.onStream c streamId callback = some (s', out)) :
    ∃ p session, s.find c = some p ∧ streamId ∉ (s.sessions p).library.closed ∧
      callback (s.sessions p) = some session ∧ s' = s.setSession p session := by
  obtain ⟨p, session, hfind, hsess, rfl⟩ := onSession_eq_some h
  split_ifs at hsess with hopen
  exact ⟨p, session, hfind, hopen, hsess, rfl⟩

theorem newSession_eq_some {p : Nat} {accepts : Nat → Bool} (h : s.newSession p accepts = some s') :
    p ∉ s.pointers ∧ s' = s.setSession p { library := { accepts } } := by
  unfold newSession at h
  split_ifs at h with hptr
  exact ⟨hptr, (some.inj h).symm⟩

theorem step_touched {platform : Platform} {e : Event} (h : s.step platform e = some (s', out)) (ptr : Nat) :
    Touched platform s ptr e (s'.sessions ptr) := by
  cases e with
  | acceptTcp fd p accepts =>
    rw [step] at h
    split_ifs at h with hfd
    obtain ⟨s₁, hnew, heq⟩ := map_eq_some_iff.mp h
    cases heq
    obtain ⟨-, rfl⟩ := newSession_eq_some hnew
    exact touched_update .acceptTcp ptr
  | acceptQuic cids p accepts =>
    obtain ⟨s₁, hnew, heq⟩ := map_eq_some_iff.mp h
    cases heq
    obtain ⟨-, rfl⟩ := newSession_eq_some hnew
    exact touched_update .acceptQuic ptr
  | associateCid cid newCid =>
    obtain ⟨p, -, heq⟩ := map_eq_some_iff.mp h
    cases heq
    exact .same
  | eraseTcp fd =>
    cases h
    exact .same
  | eraseQuic cids =>
    cases h
    exact .same
  | rehash h3Sessions =>
    rw [step] at h
    split_ifs at h
    cases h
    exact .same
  | header c streamId name value =>
    obtain ⟨p, session, -, hopen, hsess, rfl⟩ := onStream_eq_some h
    cases hsess
    exact touched_update (.header hopen) ptr
  | data c streamId data =>
    obtain ⟨p, session, -, hopen, hsess, rfl⟩ := onStream_eq_some h
    cases hsess
    exact touched_update (.data hopen) ptr
  | endStream c streamId =>
    obtain ⟨p, session, -, hopen, hsess, rfl⟩ := onStream_eq_some h
    exact touched_update (.endStream hopen hsess) ptr
  | getMessages c =>
    obtain ⟨p, -, h⟩ := bind_eq_some_iff.mp h
    obtain ⟨w, hw, heq⟩ := map_eq_some_iff.mp h
    cases heq
    exact touched_update (.getMessages hw) ptr
  | frameSend fd streamId endStream =>
    rw [step] at h
    obtain ⟨p, session, -, hsess, rfl⟩ := onSession_eq_some h
    cases hsess
    exact touched_update .frameSend ptr
  | frameNotSend fd streamId isData =>
    rw [step] at h
    obtain ⟨p, session, -, hsess, rfl⟩ := onSession_eq_some h
    cases hsess
    exact touched_update .frameNotSend ptr
  | streamClosed fd streamId =>
    obtain ⟨p, session, hfind, hopen, hsess, rfl⟩ := onStream_eq_some h
    cases hsess
    exact touched_update (.streamClosed hfind hopen) ptr
  | response message =>
    cases h
    unfold handleResponse
    split
    · exact .same
    · split
      · exact .same
      · exact touched_update (.response _) ptr
  | notification topic message =>
    obtain ⟨s₁, hnotify, heq⟩ := map_eq_some_iff.mp h
    cases heq
    unfold handleNotification at hnotify
    split at hnotify
    · cases hnotify
      exact .same
    · exact .notification (notifySessions_notified hnotify ptr)

end Server

end Rest

end OpenCmw
