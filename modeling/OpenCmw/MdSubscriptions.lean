import OpenCmw.MdReplies

/-!
# Subscriptions of the Majordomo client

A subscription is entered under the ZMQ topic of the command's URI, and an
update is looked up under the first frame of its message. `insert` keeps an
entry that is there and nothing removes one, so that the table holds, for each
topic, the first subscribe with a callback, whatever server it names
(`lookup_subscriptions`).

`latestSubscribe` is what a subscriber of one server expects: the latest
subscribe, up to an unsubscribe.
-/

namespace OpenCmw.MdClient

/-- The ZMQ topic of a command's URI. -/
def topicOf (uri : Uri .strict) : Option Bytes :=
  (Topic.fromMdpTopic uri).toOption.map Topic.toZmqTopic

/-- A subscribe with a callback for the topic, on any server. -/
def subscribesTo (topic : Bytes) (cmd : ClientCommand) : Bool :=
  cmd.callback && cmd.command == .subscribe && topicOf cmd.topic == some topic

/-- The first of the commands that does, by its number. -/
def firstSubscribe (topic : Bytes) (trace : List (Event × List Output)) : Option Nat :=
  ((issued trace).zipIdx.find? fun c => subscribesTo topic c.1.1).map (·.2)

/-- One command more. -/
def latestAfter (server topic : Bytes) (latest : Option Nat)
    (c : (ClientCommand × Option UInt64) × Nat) : Option Nat :=
  if c.1.1.topic.parts.authority = server ∧ topicOf c.1.1.topic = some topic then
    match c.1.1.command with
    | .subscribe => if c.1.1.callback then some c.2 else none
    | .unsubscribe => none
    | _ => latest
  else latest

/-- The latest subscribe for a topic of a server, unless it was unsubscribed or
has no callback. -/
def latestSubscribe (server topic : Bytes) (trace : List (Event × List Output)) : Option Nat :=
  (issued trace).zipIdx.foldl (latestAfter server topic) none

/-! ## The table of subscriptions -/

section
variable {trace : List (Event × List Output)} {s s' : State} {e : Event} {out : List Output}

theorem firstSubscribe_snoc_request (topic : Bytes) (cmd : ClientCommand)
    {sent : Option UInt64} (h : issuedBy (.request cmd, out) = some (cmd, sent)) :
    firstSubscribe topic (trace ++ [(.request cmd, out)]) = (firstSubscribe topic trace).or
        (if subscribesTo topic cmd then some (issued trace).length else none) := by
  unfold firstSubscribe
  rw [issued_snoc, h, Option.toList_some, List.zipIdx_append, List.find?_append, Option.map_or]
  congr 1
  by_cases hsub : subscribesTo topic cmd = true <;> simp [hsub, List.find?]

theorem firstSubscribe_snoc_other (topic : Bytes) (h : issuedBy (e, out) = none) :
    firstSubscribe topic (trace ++ [(e, out)]) = firstSubscribe topic trace := by
  rw [firstSubscribe, issued_snoc, h, Option.toList_none, List.append_nil, firstSubscribe]

/-- The callback in the table for a topic. -/
def entered (s : State) (topic : Bytes) : Option Nat :=
  (s.subscriptions.lookup topic).map (·.callback)

theorem entered_tryEmplace (m : UMap Bytes Entry) (topic topic' : Bytes) (entry : Entry) :
    ((m.tryEmplace topic entry).lookup topic').map (·.callback) =
      ((m.lookup topic').map (·.callback)).or
        (if topic' = topic then some entry.callback else none) := by
  rw [UMap.lookup_tryEmplace]
  split_ifs with h
  · subst h
    cases m.lookup topic' <;> rfl
  · simp

/-- Entering a command's callback, if it subscribes. -/
theorem entered_request (s : State) (cmd : ClientCommand) (topic : Bytes) :
    entered (request cmd s).1 topic =
      (entered s topic).or (if subscribesTo topic cmd then some s.issued else none) := by
  have hnot : cmd.command ≠ .subscribe → subscribesTo topic cmd = false := fun h => by
    simp [subscribesTo, h]
  rcases request_cases cmd s with ⟨-, hc, heq⟩ | ⟨hcb, hc, t, ht, heq⟩ |
    ⟨hcb, hc, ex, hex, heq⟩ | ⟨-, hc, heq⟩ | ⟨hother, heq⟩
  · have hsub := hnot (by rcases hc with hc | hc <;> simp [hc])
    simp [heq, hsub, entered]
  · have hsub : subscribesTo topic cmd = true ↔ topic = t.toZmqTopic := by
      simp only [subscribesTo, hcb, hc, topicOf, ht, Except.toOption, Option.map_some,
        Bool.true_and, beq_self_eq_true, beq_iff_eq, Option.some.injEq]
      exact eq_comm
    rw [heq, entered, entered_tryEmplace, entered]
    simp only [hsub]
  · have hsub : subscribesTo topic cmd = false := by
      simp [subscribesTo, topicOf, hex, Except.toOption]
    simp [heq, hsub, entered]
  · simp [heq, hnot (by simp [hc]), entered]
  · have hsub : subscribesTo topic cmd = false := by
      refine Bool.eq_false_iff.mpr fun h => ?_
      simp only [subscribesTo, Bool.and_eq_true, beq_iff_eq] at h
      exact hother ⟨h.1.1, by simp [h.1.2]⟩
    simp [heq, hsub, entered]

theorem issuedBy_some (cmd : ClientCommand) (out : List Output) :
    ∃ sent, issuedBy (.request cmd, out) = some (cmd, sent) := by
  match out with
  | [.sendCmd _ _ reqId _ _] => exact ⟨some reqId, rfl⟩
  | [] | [.reply ..] | [.update ..] | [.threw _] => exact ⟨none, rfl⟩
  | o :: _ :: _ => exact ⟨none, by cases o <;> rfl⟩

/-- For each topic the table holds the first subscribe with a callback. -/
theorem lookup_subscriptions {ok : State → Event → Prop} (h : Run step ok {} trace s)
    (topic : Bytes) : entered s topic = firstSubscribe topic trace := by
  induction h with
  | nil => rfl
  | @snoc trace s e s' out hrun _ hstep ih =>
    cases e with
    | request cmd =>
      obtain ⟨_, hsent⟩ := issuedBy_some cmd out
      have hreq : request cmd s = (s', out) := Option.some.inj hstep
      rw [firstSubscribe_snoc_request topic cmd hsent, ← ih, ← (sound hrun).count,
        ← entered_request, hreq]
    | poll client =>
      cases hstep
      rw [firstSubscribe_snoc_other topic rfl]
      exact ih
    | receive message =>
      rw [firstSubscribe_snoc_other topic rfl, ← ih]
      obtain ⟨client, _, -, ⟨-, rfl, -⟩ | ⟨_, _, -, -, rfl, -⟩⟩ :=
        step_receive hstep
      · rfl
      · rfl

end

/-! ## Delivery -/

/-- Only subscribe and unsubscribe commands are given. -/
def OnlySubscriptions (_ : State) : Event → Prop
  | .request cmd => cmd.command = .subscribe ∨ cmd.command = .unsubscribe
  | _ => True

theorem requests_empty {trace : List (Event × List Output)} {s : State}
    (h : Run step OnlySubscriptions {} trace s) : s.requests = ∅ := by
  induction h with
  | nil => rfl
  | @snoc trace s e s' out _ hok hstep ih =>
    cases e with
    | request cmd =>
      have hreq : request cmd s = (s', out) := Option.some.inj hstep
      rcases request_cases cmd s with ⟨-, hc, heq⟩ | ⟨-, -, t, -, heq⟩ | ⟨-, -, _, -, heq⟩ |
        ⟨-, -, heq⟩ | ⟨-, heq⟩
      · rcases hc with hc | hc <;> simp [OnlySubscriptions, hc] at hok
      all_goals obtain ⟨rfl, -⟩ := Prod.mk.inj (heq.symm.trans hreq)
      · exact ih
      · exact ih
      · dsimp only
        rw [ih]
        rfl
      · exact ih
    | poll client =>
      cases hstep
      exact ih
    | receive message =>
      obtain ⟨client, _, -, ⟨-, rfl, -⟩ | ⟨_, _, -, -, rfl, -⟩⟩ :=
        step_receive hstep
      · exact ih
      · dsimp only
        rw [ih]
        rfl

/-- What a subscriber gets of an update. -/
structure Carries (message : BrokerMessage) (event : Message) : Prop where
  topic : event.topic = message.topic
  data : event.data = message.data
  error : event.error = message.error
  rbac : event.rbac = message.rbac
  clientRequestID : event.clientRequestID = message.clientRequestID

theorem carries_update {message : BrokerMessage} (h : isUpdate message.command = true)
    (receivedEvent : Message) :
    Carries message (handleSubscriptionMessage message receivedEvent) := by
  rw [handleSubscriptionMessage, if_pos h]
  exact ⟨rfl, rfl, rfl, rfl, rfl⟩

/-- An update of a server is passed to the latest subscribe for its topic there,
once and to no other, if that is the first subscribe with a callback for the
topic on any server. -/
theorem updates_delivered {trace : List (Event × List Output)} {s s' : State} {server : Bytes}
    {receivedEvent : Message} {message : BrokerMessage} {out : List Output}
    (hrun : Run step OnlySubscriptions {} trace s)
    (hpolled : s.polled = some ({ scheme := .mds, server }, receivedEvent))
    (hcmd : message.command = .notify ∨ message.command = .final)
    (hfirst : firstSubscribe message.sourceId trace = latestSubscribe server message.sourceId trace)
    (hstep : step s (.receive message) = some (s', out)) : ∃ event, Carries message event ∧
      out = (latestSubscribe server message.sourceId trace).toList.map (.update · event) := by
  have hupdate : isUpdate message.command = true := by
    rcases hcmd with hc | hc <;> rw [hc] <;> rfl
  obtain ⟨_, _, hpolled', hcases⟩ := step_receive hstep
  obtain ⟨rfl, rfl⟩ := Prod.mk.inj (Option.some.inj (hpolled.symm.trans hpolled'))
  rcases hcases with ⟨hreceive, -, -⟩ | ⟨event, id, hreceive, -, -, rfl⟩
  · cases hreceive
  · have hevent : handleSubscriptionMessage message receivedEvent = event :=
      Option.some.inj hreceive
    have hsvc : event.serviceName = message.sourceId := by
      rw [← hevent, handleSubscriptionMessage, if_pos hupdate]
    refine ⟨event, hevent ▸ carries_update hupdate receivedEvent, ?_⟩
    have hreplies : ∀ event, replies s id event = [] := fun event => by
      rw [replies, requests_empty hrun]
      rfl
    rw [hreplies, List.append_nil, ← hfirst, ← lookup_subscriptions hrun, entered, updates,
      hsvc]
    cases s.subscriptions.lookup message.sourceId <;> rfl

/-! ## A subscriber -/

def subscribeNews : ClientCommand where
  command := .subscribe
  topic :=
    { str := str "mds://one:1/news"
      parts := { scheme := str "mds", authority := str "one:1", path := str "/news" }
      parsed := by decide +kernel }
  callback := true

def newsTopic : Topic := { service := str "/news", params := ∅, valid := isValidServiceName_news }

theorem fromMdpTopic_news : Topic.fromMdpTopic subscribeNews.topic = .ok newsTopic := by
  have hqry : subscribeNews.topic.queryParamMap = .ok ∅ := by
    show parseParams .strict [] ∅ = .ok ∅
    rw [parseParams]
    rfl
  rw [Topic.fromMdpTopic, hqry]
  decide +kernel

theorem topicOf_news : topicOf subscribeNews.topic = some (str "/news#") := by
  rw [topicOf, fromMdpTopic_news]
  decide +kernel

/-- `poll` reads the messages of the server, which was subscribed once. -/
def newsClient : State :=
  { subscriptions := UMap.tryEmplace ∅ newsTopic.toZmqTopic
      { uri := subscribeNews.topic, callback := 0 }
    requestId := 1
    issued := 1
    polled := some ({ scheme := .mds, server := str "one:1" }, {}) }

def newsTrace : List (Event × List Output) :=
  [(.request subscribeNews, [subscribeNews.send 0]),
    (.poll { scheme := .mds, server := str "one:1" }, [])]

theorem newsClient_run : Run step OnlySubscriptions {} newsTrace newsClient := by
  have hreq : step {} (.request subscribeNews) =
      some ({ newsClient with polled := none }, [subscribeNews.send 0]) := by
    show some (request subscribeNews {}) = _
    rw [request, fromMdpTopic_news]
    rfl
  have hpoll : step { newsClient with polled := none }
      (.poll { scheme := .mds, server := str "one:1" }) = some (newsClient, []) := rfl
  have hissued : Run step OnlySubscriptions {} [(.request subscribeNews, [subscribeNews.send 0])]
      { newsClient with polled := none } := Run.nil.snoc (Or.inl rfl) hreq
  exact hissued.snoc trivial hpoll

theorem lookup_news : newsClient.subscriptions.lookup (str "/news#") =
    some { uri := subscribeNews.topic, callback := 0 } := by decide +kernel

/-- A FINAL is passed to the subscriber like a NOTIFY. -/
theorem final_is_delivered :
    let message : BrokerMessage := { command := .final, sourceId := str "/news#" }
    Run step OnlySubscriptions {} newsTrace newsClient ∧ ∃ s' event,
      step newsClient (.receive message) = some (s', [.update 0 event]) := by
  intro message
  let event := handleSubscriptionMessage message {}
  have hupdates : updates newsClient event = [.update 0 event] := by
    have hlook : newsClient.subscriptions.lookup event.serviceName = _ := lookup_news
    rw [updates, hlook]
  let client : Client := { scheme := .mds, server := str "one:1" }
  refine ⟨newsClient_run, { newsClient with polled := some (client, event) }, event, ?_⟩
  rw [← hupdates]
  rfl

theorem updates_delivered_notify :
    let message : BrokerMessage := { command := .notify, sourceId := str "/news#" }
    latestSubscribe (str "one:1") (str "/news#") newsTrace = some 0 ∧ ∃ s' out event,
      step newsClient (.receive message) = some (s', out) ∧ Carries message event ∧
        out = [.update 0 event] := by
  intro message
  have hlatest : latestSubscribe (str "one:1") (str "/news#") newsTrace = some 0 := by
    show latestAfter _ _ none ((subscribeNews, some 0), 0) = some 0
    rw [latestAfter, if_pos ⟨rfl, topicOf_news⟩]
    rfl
  have hfirst : firstSubscribe (str "/news#") newsTrace = some 0 := by
    rw [← lookup_subscriptions newsClient_run]
    decide +kernel
  have hagree : firstSubscribe message.sourceId newsTrace =
      latestSubscribe (str "one:1") message.sourceId newsTrace := hfirst.trans hlatest.symm
  have hcmd : message.command = .notify ∨ message.command = .final := Or.inl rfl
  obtain ⟨event, hcarries, hout⟩ :=
    updates_delivered newsClient_run rfl hcmd hagree rfl
  have hname : latestSubscribe (str "one:1") message.sourceId newsTrace = some 0 := hlatest
  rw [hname] at hout
  exact ⟨hlatest, _, _, event, rfl, hcarries, hout⟩

end OpenCmw.MdClient
