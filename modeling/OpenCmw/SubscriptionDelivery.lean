import OpenCmw.BrokerSteps

/-!
# Delivery of notifications to subscribers

The broker keeps two tables: how often each topic was subscribed to, and
which clients subscribed to it. A notification is delivered to the clients of
the topics in the *first* table. The set of clients is exact at all times
(`tablesExact_run`): it follows every SUBSCRIBE and UNSUBSCRIBE. The count
is not tied to it - an UNSUBSCRIBE of a client that never subscribed is
counted like any other - so a topic can leave the first table while clients
are still in its set, and those clients no longer get their notifications
(`unsubscribe_of_stranger_stops_delivery`).

`CountKept` is the condition on a step under which that does not happen: the
last count of a topic is not removed while another client is subscribed to
it. Under it every notification is delivered exactly as the commands of each
client alone demand (`delivery_exact`).
-/

namespace OpenCmw

open Broker List Option AList

/-! ## Changes of the subscription tables -/

/-- A change of the tables: by a client's command or by a frame on the
publisher socket. -/
inductive SubChange where
  | client (id : Bytes) (topic : Topic) (isSubscribe : Bool)
  | publisher (topic : Topic) (isSubscribe : Bool)
  deriving DecidableEq

/-- The change that a SUBSCRIBE or UNSUBSCRIBE of a client asks for. -/
def clientChange (id : Bytes) (message : BrokerMessage) : Option SubChange :=
  match Topic.fromMdpTopic message.topic with
  | .ok topic =>
    match message.command with
    | .subscribe => some (.client id topic true)
    | .unsubscribe => some (.client id topic false)
    | _ => none
  | .error _ => none

variable {message : BrokerMessage} {b b' : Broker} {out : List Output} {cfg : Config}
  {s s' : Subscriptions} {e : Event} {t : Topic} {c : Bytes} {trace : List (Event × List Output)}

theorem clientChange_eq_none {id : Bytes}
    (hsub : message.command ≠ .subscribe) (hunsub : message.command ≠ .unsubscribe) :
    clientChange id message = none := by
  unfold clientChange
  split
  · split
    · next hcmd => exact absurd hcmd hsub
    · next hcmd => exact absurd hcmd hunsub
    · rfl
  · rfl

/-- The change that a frame on the publisher socket asks for. -/
def publisherChange : Bytes → Option SubChange
  | kind :: c :: rest =>
    match Topic.fromZmqTopic (c :: rest) with
    | .ok topic =>
      if kind = 1 then some (.publisher topic true)
      else if kind = 0 then some (.publisher topic false)
      else none
    | .error _ => none
  | _ => none

/-- The change of the tables that an event asks for. -/
def subChange (cfg : Config) : Event → Option SubChange
  | .message _ _ message =>
    if message.protocolName = clientProtocol then clientChange message.sourceId message else none
  | .restMessage message => if cfg.restServer then clientChange kRestSourceId message else none
  | .pubMessage data => publisherChange data
  | _ => none

namespace Subscriptions

def apply (s : Subscriptions) : SubChange → Except Fault (Subscriptions × List Output)
  | .client id topic true => s.addClient topic id
  | .client id topic false => .ok (s.removeClient topic id)
  | .publisher topic true => s.subscribe topic
  | .publisher topic false => .ok (s.unsubscribe topic)

/-- The same tables, in whatever order. -/
def SameTables (s s' : Subscriptions) : Prop :=
  (∀ topic, s'.subscribedTopics.lookup topic = s.subscribedTopics.lookup topic) ∧
    ∀ topic, s'.subscribedClientsByTopic.lookup topic = s.subscribedClientsByTopic.lookup topic

theorem SameTables.refl (s : Subscriptions) : SameTables s s := ⟨fun _ => rfl, fun _ => rfl⟩

theorem apply_outputs {s s' : Subscriptions} {change : SubChange} {out : List Output}
    (h : s.apply change = .ok (s', out)) : ∀ o ∈ out, o.kind = .other := by
  cases change with
  | client id topic isSubscribe =>
    cases isSubscribe with
    | true => exact addClient_outputs h
    | false =>
      obtain ⟨-, rfl⟩ := eq_of_ok_eq h
      exact unsubscribe_outputs s topic
  | publisher topic isSubscribe =>
    cases isSubscribe with
    | true => exact subscribe_outputs h
    | false =>
      obtain ⟨-, rfl⟩ := eq_of_ok_eq h
      exact unsubscribe_outputs s topic

end Subscriptions

/-! ## What a step does to the tables -/

theorem wellFormedTopic_eq_none {x : Except TopicError Topic}
    (h : wellFormedTopic x = .ok none) : ∃ e, x = .error e := by
  cases x with
  | ok topic => cases h
  | error e => exact ⟨e, rfl⟩

theorem wellFormedTopic_eq_some {x : Except TopicError Topic} {topic : Topic}
    (h : wellFormedTopic x = .ok (some topic)) : x = .ok topic := by
  cases x with
  | ok topic' =>
    cases h
    rfl
  | error e =>
    cases e with
    | uri u => cases u <;> simp [wellFormedTopic] at h
    | parametersNotEmpty | invalidServiceName => simp [wellFormedTopic] at h

/-- A step changes the tables as `change` says, and puts out no copy. -/
structure Changes (b b' : Broker) (change : Option SubChange) (out : List Output) : Prop where
  tables : match change with
    | some change => ∃ out', b.subscriptions.apply change = .ok (b'.subscriptions, out')
    | none => b.subscriptions.SameTables b'.subscriptions
  not_copy : ∀ o ∈ out, o.kind ≠ .copy

theorem changeSubscription_changes {id : Bytes} {isSubscribe : Bool} (hid : message.sourceId = id)
    (h : b.changeSubscription message isSubscribe = .ok (b', out)) :
    Changes b b' (match Topic.fromMdpTopic message.topic with
      | .ok topic => some (.client id topic isSubscribe)
      | .error _ => none) out := by
  obtain ⟨parsed, hparsed, h⟩ := bind_eq_ok.mp h
  cases parsed with
  | none =>
    obtain ⟨e, he⟩ := wellFormedTopic_eq_none hparsed
    cases h
    rw [he]
    exact ⟨.refl _, by simp⟩
  | some topic =>
    obtain ⟨⟨s, sent⟩, happly, heq⟩ := map_eq_ok.mp h
    cases heq
    rw [wellFormedTopic_eq_some hparsed]
    have happly : b.subscriptions.apply (.client id topic isSubscribe) = .ok (s, sent) := by
      subst hid
      cases isSubscribe with
      | true => exact happly
      | false => exact happly
    exact ⟨⟨sent, happly⟩, no_copies (by decide) (Subscriptions.apply_outputs happly)⟩

theorem Changes.same
    (hsame : b'.subscriptions = b.subscriptions) (hout : ∀ o ∈ out, o.kind ≠ .copy) :
    Changes b b' none out := by
  refine ⟨?_, hout⟩
  rw [hsame]
  exact .refl _

theorem Changes.quiet (hsame : b'.subscriptions = b.subscriptions)
    (hout : ∀ o ∈ out, o.kind = .other) : Changes b b' none out :=
  .same hsame (no_copies (by decide) hout)

theorem receiveClientMessage_changes {clock : Clock} {socket : Socket}
    (h : b.receiveClientMessage cfg clock socket message = .ok (b', out)) :
    Changes b b' (clientChange message.sourceId message) out := by
  unfold receiveClientMessage at h
  cases hcmd : message.command with
  | subscribe | unsubscribe =>
    rw [hcmd] at h
    rw [clientChange, hcmd]
    exact changeSubscription_changes rfl h
  | heartbeat =>
    rw [hcmd] at h
    obtain ⟨⟨_, _⟩, hdns, heq⟩ := map_eq_ok.mp h
    cases heq
    rw [clientChange_eq_none (by simp [hcmd]) (by simp [hcmd])]
    exact .quiet rfl (Dns.sendDnsHeartbeats_outputs hdns)
  | ready | invalid | get | set | partial_ | final | disconnect | notify =>
    rw [hcmd] at h
    cases h
    rw [clientChange_eq_none (by simp [hcmd]) (by simp [hcmd])]
    exact .same rfl (by simp)

theorem handleRestMessage_changes (h : b.handleRestMessage message = .ok (b', out)) :
    Changes b b' (clientChange kRestSourceId message) out := by
  unfold handleRestMessage at h
  cases hcmd : message.command with
  | subscribe | unsubscribe =>
    rw [hcmd] at h
    rw [clientChange, hcmd]
    have hchanges := changeSubscription_changes rfl h
    exact hchanges
  | heartbeat | ready | invalid | get | set | partial_ | final | disconnect | notify =>
    rw [hcmd] at h
    cases h
    rw [clientChange_eq_none (by simp [hcmd]) (by simp [hcmd])]
    exact .same rfl (by simp)

theorem receivePubMessage_changes {data : Bytes} (h : s.receivePubMessage data = .ok (s', out)) :
    (match publisherChange data with
      | some change => s.apply change = .ok (s', out)
      | none => s' = s ∧ out = []) := by
  unfold Subscriptions.receivePubMessage at h
  unfold publisherChange
  split at h
  · next kind c rest =>
    by_cases hkind : kind = 0 ∨ kind = 1
    · rw [if_pos hkind] at h
      obtain ⟨parsed, hparsed, h⟩ := bind_eq_ok.mp h
      cases parsed with
      | none =>
        obtain ⟨e, he⟩ := wellFormedTopic_eq_none hparsed
        cases h
        simp [he]
      | some topic =>
        simp only [wellFormedTopic_eq_some hparsed]
        rcases hkind with rfl | rfl
        · exact h
        · exact h
    · rw [if_neg hkind] at h
      cases h
      obtain ⟨h0, h1⟩ := not_or.mp hkind
      cases htopic : Topic.fromZmqTopic (c :: rest) with
      | ok topic => simp [htopic, h0, h1]
      | error e => simp [htopic]
  · cases h
    split <;> simp_all

/-- The notification in a worker's NOTIFY. -/
def notified : Event → Option BrokerMessage
  | .message _ _ message =>
    if message.protocolName ≠ clientProtocol ∧ message.command = .notify then some message
    else none
  | _ => none

theorem Changes.of_reordered (h : Reordered b b') : Changes b b' none [] := by
  obtain ⟨hcls, htopics, -⟩ := h
  exact ⟨⟨fun _ => (perm_lookup htopics).symm, fun _ => (perm_lookup hcls).symm⟩, by simp⟩

theorem cleanup_changes (h : b.cleanup = .ok (b', out)) : Changes b b' none out := by
  obtain ⟨hsame, -, hout⟩ := cleanup_frame h
  exact .quiet hsame hout

/-- A step that is no NOTIFY makes the change the event asks for. -/
theorem step_changes (hnotify : notified e = none) (h : step cfg b e = .ok (b', out)) :
    Changes b b' (subChange cfg e) out := by
  cases e with
  | message clock socket message =>
    simp only [step, receiveMessage] at h
    simp only [subChange]
    split_ifs at h ⊢ with hprot
    · exact receiveClientMessage_changes h
    · have hcmd : message.command ≠ .notify := by
        intro hcmd
        simp [notified, hprot, hcmd] at hnotify
      have hproc := processWorker_eq_ok h
      exact .same hproc.frame.1 (hproc.not_copy hcmd)
  | pubMessage data =>
    obtain ⟨⟨s, sent⟩, hs, heq⟩ := map_eq_ok.mp h
    cases heq
    have hch := receivePubMessage_changes hs
    simp only [subChange]
    cases hdata : publisherChange data with
    | none =>
      rw [hdata] at hch
      obtain ⟨rfl, rfl⟩ := hch
      exact .same rfl (by simp)
    | some change =>
      rw [hdata] at hch
      exact ⟨⟨_, hch⟩, no_copies (by decide) (Subscriptions.apply_outputs hch)⟩
  | restMessage message =>
    simp only [step] at h
    simp only [subChange]
    split_ifs at h ⊢ with hrest
    · exact handleRestMessage_changes h
    · cases h
      exact .same rfl (by simp)
  | processClients clock =>
    obtain ⟨hsame, -, hout⟩ := (processClientsLoop_eq_ok h).frame
    exact .same hsame hout
  | purgeWorkers now =>
    obtain ⟨⟨_, sent⟩, hpool, heq⟩ := map_eq_ok.mp h
    cases heq
    refine .same rfl ?_
    rw [Pool.purgeWorkers_outputs hpool]
    simp
  | purgeClients now =>
    cases h
    refine .same ?_ (by simp)
    unfold purgeClients
    split_ifs <;> rfl
  | sendHeartbeats now sent =>
    simp only [step, sendHeartbeats] at h
    split_ifs at h with hnow
    · cases h
      exact .same rfl (by simp)
    · obtain ⟨r, hr, heq⟩ := map_eq_ok.mp h
      cases heq
      exact .quiet rfl (Pool.heartbeats_outputs hr)
  | purgeDnsServices clock now =>
    obtain ⟨⟨dns, sent⟩, hdns, heq⟩ := map_eq_ok.mp h
    cases heq
    exact .quiet rfl (Dns.purgeDnsServices_outputs hdns)
  | addDnsAddress | run =>
    obtain ⟨⟨dns, sent⟩, hdns, heq⟩ := map_eq_ok.mp h
    cases heq
    exact .quiet rfl (Dns.sendDnsHeartbeats_outputs hdns)
  | cleanup => exact cleanup_changes h
  | rehash b₁ =>
    simp only [step] at h
    split_ifs at h with hperm
    · cases h
      exact .of_reordered hperm
    · cases h
      exact .same rfl (by simp)

/-- A NOTIFY leaves the tables alone and is copied to the subscribers. -/
theorem step_of_notified (hnotify : notified e = some message) (h : step cfg b e = .ok (b', out)) :
    subChange cfg e = none ∧ b'.subscriptions = b.subscriptions ∧
      ∃ copy : BrokerMessage, copy.topic = message.topic ∧
        b.subscriptions.dispatchMessageToMatchingSubscribers cfg copy = .ok out := by
  cases e with
  | message clock socket m =>
    simp only [notified] at hnotify
    split_ifs at hnotify with hm
    cases hnotify
    obtain ⟨hprot, hcmd⟩ := hm
    simp only [step, receiveMessage, if_neg hprot] at h
    refine ⟨by simp [subChange, hprot], (processWorker_eq_ok h).frame.1, ?_⟩
    cases processWorker_eq_ok h with
    | notify _ hsent => exact ⟨toSubscribers message _, rfl, hsent⟩
    | ready hother => rw [hcmd] at hother; cases hother
    | reply hother => rw [hcmd] at hother; rcases hother with hother | hother <;> cases hother
    | disconnected hother => simp [hcmd] at hother
    | renewed hother => rw [hcmd] at hother; cases hother
    | ignored hother => simp [hcmd] at hother
  | pubMessage | restMessage | processClients | purgeWorkers | purgeClients | sendHeartbeats
  | purgeDnsServices | addDnsAddress | run | cleanup | rehash => cases hnotify

/-! ## The two tables -/

namespace Subscriptions

/-- The clients that notifications of the topic are copied to. -/
def clientsOf (s : Subscriptions) (topic : Topic) : List Bytes :=
  ((s.subscribedClientsByTopic.lookup topic).getD ∅).keys

theorem clientsOf_nodup (s : Subscriptions) (topic : Topic) : (s.clientsOf topic).Nodup :=
  SortedMap.keys_nodup _

variable {s s' : Subscriptions} {topic t : Topic}

theorem SameTables.clientsOf_eq (h : SameTables s s') (topic : Topic) :
    s'.clientsOf topic = s.clientsOf topic := by
  rw [clientsOf, clientsOf, h.2]

theorem SameTables.mem_topics (h : SameTables s s') :
    topic ∈ s'.subscribedTopics ↔ topic ∈ s.subscribedTopics := by
  rw [← lookup_isSome, ← lookup_isSome, h.1]

theorem mem_clientsOf_insertClient {client c : Bytes} :
    c ∈ (s.insertClient topic client).clientsOf t ↔
      (t = topic ∧ c = client) ∨ c ∈ s.clientsOf t := by
  unfold clientsOf insertClient
  rw [UMap.lookup_insert]
  by_cases ht : t = topic
  · subst ht
    simp [SortedMap.mem_keys_insert]
  · simp [ht]

theorem mem_clientsOf_eraseClient {client c : Bytes} :
    c ∈ (s.eraseClient topic client).clientsOf t ↔
      c ∈ s.clientsOf t ∧ ¬(t = topic ∧ c = client) := by
  unfold eraseClient
  split
  · next hnone =>
    refine ⟨fun h => ⟨h, ?_⟩, And.left⟩
    rintro ⟨rfl, -⟩
    rw [clientsOf, hnone] at h
    cases h
  · next clients hsome =>
    have hkeys : ∀ c, c ∈ (clients.erase client).keys ↔ c ∈ clients.keys ∧ c ≠ client :=
      fun c => SortedMap.mem_keys_erase.trans and_comm
    unfold clientsOf
    dsimp only
    by_cases ht : t = topic
    · subst ht
      rw [hsome, getD_some]
      split_ifs with hemp
      · rw [UMap.lookup_erase, if_pos rfl]
        have hnone := hkeys c
        rw [hemp] at hnone
        simpa using hnone
      · rw [UMap.lookup_insert, if_pos rfl, getD_some]
        simpa using hkeys c
    · split_ifs with hemp
      · rw [UMap.lookup_erase, if_neg ht]
        simp [ht]
      · rw [UMap.lookup_insert, if_neg ht]
        simp [ht]

theorem subscribe_tables {out : List Output} (h : s.subscribe topic = .ok (s', out)) :
    s'.subscribedClientsByTopic = s.subscribedClientsByTopic ∧
      ∀ t, t ∈ s'.subscribedTopics ↔ t = topic ∨ t ∈ s.subscribedTopics := by
  unfold subscribe at h
  dsimp only at h
  split_ifs at h with hmax hone
  · cases h
    exact ⟨rfl, fun t => mem_insert _⟩
  · cases h
    exact ⟨rfl, fun t => mem_insert _⟩

theorem unsubscribe_clients (s : Subscriptions) (topic : Topic) :
    (s.unsubscribe topic).1.subscribedClientsByTopic = s.subscribedClientsByTopic := by
  unfold unsubscribe
  split
  · rfl
  · split_ifs <;> rfl

theorem mem_topics_unsubscribe : t ∈ (s.unsubscribe topic).1.subscribedTopics ↔
      t ∈ s.subscribedTopics ∧ ¬(t = topic ∧ s.subscribedTopics.lookup topic = some 1) := by
  unfold unsubscribe
  split
  · next hnone => simp [hnone]
  · next count hsome =>
    rw [hsome, some_inj]
    split_ifs with hone
    · rw [mem_erase]
      have hcnt : count = 1 := by omega
      simp [hcnt, and_comm]
    · have hcnt : count ≠ 1 := by omega
      rw [mem_insert]
      simp only [hcnt, and_false, not_false_eq_true, and_true, or_iff_right_iff_imp]
      rintro rfl
      exact lookup_isSome.mp (by rw [hsome]; rfl)

end Subscriptions

/-! ## Commands of clients -/

namespace SubChange

/-- The command of client `c` for topic `t`: true for SUBSCRIBE. -/
def command? (c : Bytes) (t : Topic) : SubChange → Option Bool
  | client id topic isSubscribe => if id = c ∧ topic = t then some isSubscribe else none
  | publisher .. => none

/-- The topic whose count goes down, and the client that asks for it. -/
def unsubscribed? : SubChange → Option (Topic × Option Bytes)
  | client id topic false => some (topic, some id)
  | publisher topic false => some (topic, none)
  | _ => none

end SubChange

/-- The most recent command of client `c` for topic `t` was a SUBSCRIBE. -/
def lastWasSubscribe (cfg : Config) (c : Bytes) (t : Topic) (trace : List (Event × List Output)) :
    Bool :=
  trace.foldl (fun last x => ((subChange cfg x.1).bind (·.command? c t)).getD last) false

theorem lastWasSubscribe_snoc (cfg : Config) (c : Bytes) (t : Topic)
    (trace : List (Event × List Output)) (e : Event) (out : List Output) :
    lastWasSubscribe cfg c t (trace ++ [(e, out)]) =
      ((subChange cfg e).bind (·.command? c t)).getD (lastWasSubscribe cfg c t trace) := by
  rw [lastWasSubscribe, foldl_append]
  rfl

/-- The set of clients of a topic follows their commands. -/
theorem mem_clientsOf_apply {change : SubChange}
    (h : s.apply change = .ok (s', out)) (c : Bytes) (t : Topic) :
    decide (c ∈ s'.clientsOf t) = (change.command? c t).getD (decide (c ∈ s.clientsOf t)) := by
  cases change with
  | client id topic isSubscribe =>
    simp only [SubChange.command?]
    cases isSubscribe with
    | true =>
      obtain ⟨⟨s₁, _⟩, hsub, heq⟩ := map_eq_ok.mp h
      cases heq
      have hsame : s₁.clientsOf t = s.clientsOf t := by
        rw [Subscriptions.clientsOf, (Subscriptions.subscribe_tables hsub).1]
        rfl
      split_ifs with hct
      · obtain ⟨rfl, rfl⟩ := hct
        simp [Subscriptions.mem_clientsOf_insertClient]
      · rw [getD_none, decide_eq_decide, Subscriptions.mem_clientsOf_insertClient, hsame]
        exact or_iff_right fun hboth => hct ⟨hboth.2.symm, hboth.1.symm⟩
    | false =>
      obtain ⟨rfl, -⟩ := eq_of_ok_eq h
      have hsame : (s.unsubscribe topic).1.clientsOf t = s.clientsOf t := by
        rw [Subscriptions.clientsOf, Subscriptions.unsubscribe_clients]
        rfl
      rw [Subscriptions.removeClient]
      split_ifs with hct
      · obtain ⟨rfl, rfl⟩ := hct
        simp [Subscriptions.mem_clientsOf_eraseClient]
      · rw [getD_none, decide_eq_decide, Subscriptions.mem_clientsOf_eraseClient, hsame]
        exact and_iff_left fun hboth => hct ⟨hboth.2.symm, hboth.1.symm⟩
  | publisher topic isSubscribe =>
    have hcls : s'.subscribedClientsByTopic = s.subscribedClientsByTopic := by
      cases isSubscribe with
      | true => exact (Subscriptions.subscribe_tables h).1
      | false =>
        obtain ⟨rfl, -⟩ := eq_of_ok_eq h
        exact Subscriptions.unsubscribe_clients s topic
    rw [Subscriptions.clientsOf, hcls]
    rfl

theorem Subscriptions.eraseClient_topics (s : Subscriptions) (topic : Topic) (client : Bytes) :
    (s.eraseClient topic client).subscribedTopics = s.subscribedTopics := by
  unfold eraseClient
  split <;> rfl

/-- A topic leaves the table of counts only with its last count. -/
theorem mem_topics_of_mem {change : SubChange}
    (h : s.apply change = .ok (s', out)) (ht : t ∈ s.subscribedTopics)
    (hkept : ∀ r ∈ change.unsubscribed?, r.1 = t → s.subscribedTopics.lookup t ≠ some 1) :
    t ∈ s'.subscribedTopics := by
  have hunsub : ∀ {topic : Topic}, (topic = t → s.subscribedTopics.lookup t ≠ some 1) →
      t ∈ (s.unsubscribe topic).1.subscribedTopics := by
    intro topic hcnt
    refine Subscriptions.mem_topics_unsubscribe.mpr ⟨ht, ?_⟩
    rintro ⟨rfl, hone⟩
    exact hcnt rfl hone
  cases change with
  | client id topic isSubscribe =>
    cases isSubscribe with
    | true =>
      obtain ⟨⟨_, _⟩, hsub, heq⟩ := map_eq_ok.mp h
      cases heq
      exact ((Subscriptions.subscribe_tables hsub).2 t).mpr (Or.inr ht)
    | false =>
      obtain ⟨rfl, -⟩ := eq_of_ok_eq h
      rw [Subscriptions.removeClient, Subscriptions.eraseClient_topics]
      exact hunsub (hkept _ rfl)
  | publisher topic isSubscribe =>
    cases isSubscribe with
    | true => exact ((Subscriptions.subscribe_tables h).2 t).mpr (Or.inr ht)
    | false =>
      obtain ⟨rfl, -⟩ := eq_of_ok_eq h
      exact hunsub (hkept _ rfl)

theorem mem_topics_of_subscribe {change : SubChange} (h : s.apply change = .ok (s', out))
    (hcmd : change.command? c t = some true) : t ∈ s'.subscribedTopics := by
  cases change with
  | client id topic isSubscribe =>
    simp only [SubChange.command?] at hcmd
    split_ifs at hcmd with hct
    obtain ⟨rfl, rfl⟩ := hct
    cases hcmd
    obtain ⟨⟨_, _⟩, hsub, heq⟩ := map_eq_ok.mp h
    cases heq
    exact ((Subscriptions.subscribe_tables hsub).2 topic).mpr (Or.inl rfl)
  | publisher topic isSubscribe => cases hcmd

/-! ## The invariant of a run -/

/-- The sender of a message on one of the sockets. -/
def senderId? : Event → Option Bytes
  | .message _ _ message => some message.sourceId
  | _ => none

/-- The last count of a topic is not removed while a client other than the
one that unsubscribes is subscribed to it. -/
def CountKept (cfg : Config) (b : Broker) (e : Event) : Prop :=
  ∀ r ∈ (subChange cfg e).bind SubChange.unsubscribed?,
    b.subscriptions.subscribedTopics.lookup r.1 = some 1 →
      ∀ c ∈ b.subscriptions.clientsOf r.1, r.2 = some c
  deriving Decidable

/-- The steps of a run: the count is kept, and no peer of a socket has the id
that the broker uses for its REST clients. -/
def DeliveryOk (cfg : Config) (b : Broker) (e : Event) : Prop :=
  CountKept cfg b e ∧ senderId? e ≠ some kRestSourceId
  deriving Decidable

/-- The clients of each topic are those whose last command was a SUBSCRIBE,
and every topic with clients is counted. -/
structure TablesExact (cfg : Config) (trace : List (Event × List Output)) (b : Broker) :
    Prop where
  clients : ∀ c t, decide (c ∈ b.subscriptions.clientsOf t) = lastWasSubscribe cfg c t trace
  counted : ∀ t, b.subscriptions.clientsOf t ≠ [] → t ∈ b.subscriptions.subscribedTopics
  rest : ∀ t, kRestSourceId ∈ b.subscriptions.clientsOf t → cfg.restServer = true

/-- A command under the id of the REST clients comes from the REST server. -/
theorem restServer_of_command (hsender : senderId? e ≠ some kRestSourceId) {isSubscribe : Bool}
    (h : (subChange cfg e).bind (·.command? kRestSourceId t) = some isSubscribe) :
    cfg.restServer = true := by
  obtain ⟨_, hch, hcmd⟩ := bind_eq_some_iff.mp h
  cases e with
  | message clock socket message =>
    simp only [subChange, clientChange] at hch
    split_ifs at hch with hprot
    have hid : message.sourceId ≠ kRestSourceId := fun h => hsender (congrArg some h)
    split at hch
    · split at hch
      · cases hch
        simp [SubChange.command?, hid] at hcmd
      · cases hch
        simp [SubChange.command?, hid] at hcmd
      · cases hch
    · cases hch
  | pubMessage data =>
    simp only [subChange] at hch
    unfold publisherChange at hch
    split at hch
    · split at hch
      · split_ifs at hch <;> cases hch <;> cases hcmd
      · cases hch
    · cases hch
  | restMessage message =>
    simp only [subChange] at hch
    split_ifs at hch with hrest
    exact hrest
  | processClients | purgeWorkers | purgeClients | sendHeartbeats
  | purgeDnsServices | addDnsAddress | run | cleanup | rehash => cases hch

theorem TablesExact.same (hI : TablesExact cfg trace b)
    (hnone : subChange cfg e = none) (hsame : b.subscriptions.SameTables b'.subscriptions) :
    TablesExact cfg (trace ++ [(e, out)]) b' := by
  refine ⟨fun c t => ?_, fun t ht => ?_, fun t ht => ?_⟩
  · rw [lastWasSubscribe_snoc, hnone, hsame.clientsOf_eq]
    exact hI.clients c t
  · rw [hsame.clientsOf_eq] at ht
    exact hsame.mem_topics.mpr (hI.counted t ht)
  · rw [hsame.clientsOf_eq] at ht
    exact hI.rest t ht

theorem SubChange.command?_of_unsubscribed {change : SubChange}
    (h : (t, some c) ∈ change.unsubscribed?) : change.command? c t = some false := by
  cases change with
  | client id topic isSubscribe =>
    cases isSubscribe with
    | true => cases h
    | false =>
      cases h
      exact if_pos ⟨rfl, rfl⟩
  | publisher topic isSubscribe => cases isSubscribe <;> cases h

theorem TablesExact.change {out' : List Output} {change : SubChange} (hI : TablesExact cfg trace b)
    (hok : DeliveryOk cfg b e) (hch : subChange cfg e = some change)
    (happly : b.subscriptions.apply change = .ok (b'.subscriptions, out')) :
    TablesExact cfg (trace ++ [(e, out)]) b' := by
  have hmem := mem_clientsOf_apply happly
  refine ⟨fun c t => ?_, fun t ht => ?_, fun t ht => ?_⟩
  · rw [lastWasSubscribe_snoc, hch, hmem, hI.clients]
    rfl
  · obtain ⟨c, hc⟩ := exists_mem_of_ne_nil _ ht
    have hc := (hmem c t).symm.trans (decide_eq_true hc)
    cases hcmd : change.command? c t with
    | some isSubscribe =>
      rw [hcmd] at hc
      obtain rfl : isSubscribe = true := hc
      exact mem_topics_of_subscribe happly hcmd
    | none =>
      rw [hcmd] at hc
      have hold : c ∈ b.subscriptions.clientsOf t := of_decide_eq_true hc
      refine mem_topics_of_mem happly (hI.counted t (ne_nil_of_mem hold)) ?_
      rintro ⟨topic, sender⟩ hr rfl hone
      have hkept := hok.1 (topic, sender) (by rw [hch]; exact hr) hone c hold
      obtain rfl : sender = some c := hkept
      rw [SubChange.command?_of_unsubscribed hr] at hcmd
      cases hcmd
  · have hc := (hmem kRestSourceId t).symm.trans (decide_eq_true ht)
    cases hcmd : change.command? kRestSourceId t with
    | some isSubscribe =>
      exact restServer_of_command hok.2 (by rw [hch]; exact hcmd)
    | none =>
      rw [hcmd] at hc
      exact hI.rest t (of_decide_eq_true hc)

theorem tablesExact_step (hI : TablesExact cfg trace b) (hok : DeliveryOk cfg b e)
    (hstep : machine cfg b e = some (b', out)) : TablesExact cfg (trace ++ [(e, out)]) b' := by
  have hstep := machine_eq_some.mp hstep
  cases hnotify : notified e with
  | some message =>
    obtain ⟨hnone, hsame, -⟩ := step_of_notified hnotify hstep
    refine hI.same hnone ?_
    rw [hsame]
    exact .refl _
  | none =>
    have hchanges := (step_changes hnotify hstep).tables
    cases hch : subChange cfg e with
    | none =>
      rw [hch] at hchanges
      exact hI.same hch hchanges
    | some change =>
      rw [hch] at hchanges
      obtain ⟨_, happly⟩ := hchanges
      exact hI.change hok hch happly

theorem tablesExact_run {now : Int} (h : Run (machine cfg) (DeliveryOk cfg) (initial cfg now) trace b) :
    TablesExact cfg trace b := by
  refine h.invariant ⟨fun c t => rfl, fun t ht => absurd rfl ht, fun t ht => by cases ht⟩ ?_
  intro trace b e b' out hI hok hstep
  exact tablesExact_step hI hok hstep

/-! ## Copies -/

/-- A copy of a notification that is sent to client `c` for its subscription
to topic `t`. -/
def Output.isCopyFor (c : Bytes) (t : Topic) : Output → Bool
  | .notification topic message => topic = t && message.sourceId = c
  | .restNotification topic _ => topic = t && c = kRestSourceId
  | _ => false

def copiesTo (c : Bytes) (t : Topic) (out : List Output) : Nat := out.countP (Output.isCopyFor c t)

theorem copiesTo_eq_zero (h : ∀ o ∈ out, o.kind ≠ .copy) : copiesTo c t out = 0 := by
  refine countP_eq_zero.mpr fun o ho hcopy => h o ho ?_
  cases o with
  | notification | restNotification => rfl
  | request | reply | restResponse | publication | serviceNames | disconnect | heartbeat
  | dnsChallenge | dnsReady | subSocket => cases hcopy

/-- One copy for each client of the topic, if the topic matches. -/
theorem copiesTo_copiesFor (message : BrokerMessage) (c : Bytes) (t : Topic) {topic : Topic}
    (hrest : kRestSourceId ∈ s.clientsOf topic → cfg.restServer = true) :
    copiesTo c t (s.copiesFor cfg message topic) =
      if topic = t ∧ c ∈ s.clientsOf topic then 1 else 0 := by
  have hcls : s.copiesFor cfg message topic =
      .publication topic { message with sourceId := topic.toZmqTopic } ::
        (s.clientsOf topic).flatMap fun clientId =>
          if clientId = kRestSourceId then
            if cfg.restServer then [.restNotification topic message] else []
          else [.notification topic { message with sourceId := clientId }] := by
    unfold Subscriptions.copiesFor Subscriptions.clientsOf
    cases s.subscribedClientsByTopic.lookup topic <;> rfl
  rw [hcls, copiesTo, countP_cons_of_neg (by simp [Output.isCopyFor]),
    countP_flatMap_of_nodup (s.clientsOf_nodup topic) ?_]
  · by_cases hc : c ∈ s.clientsOf topic
    · rw [if_pos hc]
      by_cases hcrest : c = kRestSourceId
      · subst hcrest
        simp [Output.isCopyFor, hrest hc, hc, countP_cons]
      · simp [Output.isCopyFor, hcrest, hc, countP_cons]
    · simp [hc]
  · intro clientId _ hne
    split_ifs with hid hserver
    · subst hid
      simp [Output.isCopyFor, Ne.symm hne]
    · rfl
    · simp [Output.isCopyFor, hne]

theorem copiesTo_matchingCopies {notification : Topic}
    (hrest : ∀ topic, kRestSourceId ∈ s.clientsOf topic → cfg.restServer = true)
    (hcounted : s.clientsOf t ≠ [] → t ∈ s.subscribedTopics) :
    copiesTo c t (s.matchingCopies cfg notification message) =
      if subscriptionMatches cfg.filters notification t = true ∧ c ∈ s.clientsOf t then 1
      else 0 := by
  rw [copiesTo, Subscriptions.matchingCopies,
    countP_flatMap_of_nodup s.subscribedTopics.keys_nodup ?_]
  · by_cases hmatch : subscriptionMatches cfg.filters notification t = true
    · have hcopies := copiesTo_copiesFor message c t (hrest t)
      rw [copiesTo] at hcopies
      rw [if_pos hmatch, hcopies]
      by_cases hc : c ∈ s.clientsOf t
      · have ht : t ∈ s.subscribedTopics.keys := hcounted (ne_nil_of_mem hc)
        simp [hc, ht, hmatch]
      · simp [hc]
    · simp [hmatch]
  · intro topic _ hne
    split_ifs with hmatch
    · have hcopies := copiesTo_copiesFor message c t (hrest topic)
      rw [copiesTo, if_neg (fun h => hne h.1)] at hcopies
      exact hcopies
    · rfl

/-! ## Delivery -/

/-- The topic that an event notifies of. -/
def notifiedTopic (e : Event) : Option Topic :=
  (notified e).bind fun message => (Topic.fromMdpTopic message.topic).toOption

/-- In every run that keeps the counts, a step sends client `c` one copy for
topic `t` if it notifies of a topic that matches `t` and the client's last
command for `t` was a SUBSCRIBE, and none otherwise. -/
theorem delivery_exact {cfg : Config} {now : Int} {trace : List (Event × List Output)}
    {b : Broker} (h : Run (machine cfg) (DeliveryOk cfg) (initial cfg now) trace b)
    {e : Event} {b' : Broker} {out : List Output} (hstep : step cfg b e = .ok (b', out))
    (c : Bytes) (t : Topic) :
    copiesTo c t out = if (∃ n ∈ notifiedTopic e, subscriptionMatches cfg.filters n t = true) ∧
        lastWasSubscribe cfg c t trace = true then 1 else 0 := by
  have hI := tablesExact_run h
  cases hnotify : notified e with
  | none =>
    rw [copiesTo_eq_zero (step_changes hnotify hstep).not_copy, if_neg]
    rintro ⟨⟨n, hn, -⟩, -⟩
    simp [notifiedTopic, hnotify] at hn
  | some message =>
    obtain ⟨-, -, _, htopic, hsent⟩ := step_of_notified hnotify hstep
    obtain ⟨parsed, hparsed, hout⟩ := map_eq_ok.mp hsent
    rw [htopic] at hparsed
    cases parsed with
    | none =>
      obtain ⟨_, herr⟩ := wellFormedTopic_eq_none hparsed
      obtain rfl : out = [] := hout.symm
      rw [if_neg]
      · rfl
      · rintro ⟨⟨n, hn, -⟩, -⟩
        simp [notifiedTopic, hnotify, herr, Except.toOption] at hn
    | some n =>
      have hn : notifiedTopic e = some n := by
        simp [notifiedTopic, hnotify, wellFormedTopic_eq_some hparsed, Except.toOption]
      rw [← hout, copiesTo_matchingCopies hI.rest (hI.counted t), ← hI.clients c t]
      simp [hn]

/-! ## A stray UNSUBSCRIBE -/

def serviceUri : Uri .strict where
  str := str "/service"
  parts := { path := str "/service" }
  parsed := by decide +kernel

def serviceTopic : Topic := ⟨str "/service", ∅, isValidServiceName_service⟩

def exampleConfig : Config := { brokerName := str "/broker" }

/-- A command of a client for the topic "/service". -/
def clientCommand (id : Bytes) (command : Command) : Event :=
  .message {} .router
    { sourceId := id, protocolName := clientProtocol, command, topic := serviceUri }

/-- A worker's notification of the topic "/service". -/
def workerNotify : Event :=
  .message {} .router
    { sourceId := str "worker", protocolName := workerProtocol, command := .notify,
      serviceName := str "/service", topic := serviceUri }

/-- A client that subscribed gets its copy. -/
theorem delivery_exact_subscriber :
    ∃ b out b' out',
      machine exampleConfig (initial exampleConfig 0) (clientCommand (str "c1") .subscribe) =
        some (b, out) ∧
      machine exampleConfig b workerNotify = some (b', out') ∧
      copiesTo (str "c1") serviceTopic out' = 1 := by
  have hdef : ((machine exampleConfig (initial exampleConfig 0)
      (clientCommand (str "c1") .subscribe)).bind fun r =>
        machine exampleConfig r.1 workerNotify).isSome = true := by decide +kernel
  obtain ⟨⟨b', out'⟩, hboth⟩ := isSome_iff_exists.mp hdef
  obtain ⟨⟨b, out⟩, hsub, hnotify⟩ := bind_eq_some_iff.mp hboth
  refine ⟨b, out, b', out', hsub, hnotify, ?_⟩
  have hlast : lastWasSubscribe exampleConfig (str "c1") serviceTopic
      [(clientCommand (str "c1") .subscribe, [])] = true := by decide +kernel
  rw [delivery_exact (Run.nil.snoc (by decide +kernel) hsub) (machine_eq_some.mp hnotify)]
  refine if_pos ⟨⟨serviceTopic, by decide +kernel, by decide +kernel⟩, hlast⟩

/-- Client "c1" subscribes, client "c2", which never did, unsubscribes: the
notification that follows is not delivered to "c1". -/
theorem unsubscribe_of_stranger_stops_delivery :
    (exec (machine exampleConfig) (fun _ _ => True) (initial exampleConfig 0)
        [clientCommand (str "c1") .subscribe, clientCommand (str "c2") .unsubscribe,
          workerNotify]).map
      (fun r => r.1.map fun x => copiesTo (str "c1") serviceTopic x.2) = some [0, 0, 0] ∧
    lastWasSubscribe exampleConfig (str "c1") serviceTopic
      [(clientCommand (str "c1") .subscribe, []), (clientCommand (str "c2") .unsubscribe, [])] =
        true ∧
    notifiedTopic workerNotify = some serviceTopic ∧
    subscriptionMatches exampleConfig.filters serviceTopic serviceTopic = true := by
  decide +kernel

end OpenCmw
