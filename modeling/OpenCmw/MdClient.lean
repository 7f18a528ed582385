import OpenCmw.Machine
import OpenCmw.Message

/-!
# The Majordomo client

`MDClientCtx` keeps two tables: the callbacks of pending requests under the
number they were sent with, and the callbacks of subscriptions under the ZMQ
topic of the command's URI. `request` enters a command there and hands it to
the thread that talks to the servers; `poll` goes through the clients, one for
each server and scheme, and looks every message it receives up in both tables.

The two kinds of clients read a message differently. `Client` (`mdp`) takes the
number from the request id that the message carries, `SubscriptionClient`
(`mds`) writes 0. Both write into `receivedEvent`, which is made once for each
client of a round and keeps what the last message left there; its `id` is not
initialised.

Calls of `request` come from another thread than `poll` and are events of their
own, between any two messages. A callback is named by the call of `request` it
came with. What the client sends is the output of `sendCmd`; the sockets behind
it are not modelled, so that any message may arrive from any server.
-/

namespace OpenCmw.MdClient

open Or (inl inr)

/-- `mdp::Message`: the format without a source id, which stays empty. -/
structure Message extends BrokerMessage where
  id : Option UInt64 := none
  deriving DecidableEq

/-- `client::Command`, as far as `request` reads it. -/
structure ClientCommand where
  command : Command
  topic : Uri .strict
  /-- There is a callback. -/
  callback : Bool
  data : Bytes := []
  rbac : Bytes := []
  deriving DecidableEq

/-- `Request` and `Subscription`: a callback with the URI it was given for. -/
structure Entry where
  uri : Uri .strict
  callback : Nat
  deriving DecidableEq

/-- The classes `createClient` makes a client of. -/
inductive Scheme where
  | mdp
  | mds
  deriving DecidableEq, Repr

structure Client where
  scheme : Scheme
  /-- The authority of its URI. -/
  server : Bytes
  deriving DecidableEq, Repr

structure State where
  requests : UMap UInt64 Entry := ∅
  subscriptions : UMap Bytes Entry := ∅
  requestId : UInt64 := 0
  /-- How many times `request` was called. -/
  issued : Nat := 0
  /-- The client whose messages `poll` is reading, with its `receivedEvent`. -/
  polled : Option (Client × Message) := none

inductive Event where
  | request (cmd : ClientCommand)
  /-- `poll` goes on to this client. -/
  | poll (client : Client)
  /-- The next message in the sockets of that client. -/
  | receive (message : BrokerMessage)
  deriving DecidableEq

inductive Output where
  | sendCmd (uri : Uri .strict) (command : Command) (reqId : UInt64) (data rbac : Bytes)
  /-- The callback of a request is called. -/
  | reply (callback : Nat) (message : Message)
  /-- The callback of a subscription is called. -/
  | update (callback : Nat) (message : Message)
  | threw (e : TopicError)
  deriving DecidableEq

/-! ## Commands -/

variable (cmd : ClientCommand)

def ClientCommand.send (reqId : UInt64) : Output :=
  .sendCmd cmd.topic cmd.command reqId (if cmd.command = .set then cmd.data else []) cmd.rbac

variable (s : State)

/-- `MDClientCtx::request`. -/
def request : State × List Output :=
  let entry : Entry := { uri := cmd.topic, callback := s.issued }
  let s := { s with issued := s.issued + 1 }
  let next := { s with requestId := s.requestId + 1 }
  if cmd.callback then
    match cmd.command with
    | .get | .set =>
      ({ next with requests := s.requests.tryEmplace s.requestId entry }, [cmd.send s.requestId])
    | .subscribe =>
      match Topic.fromMdpTopic cmd.topic with
      | .error e => (next, [.threw e])
      | .ok topic =>
        ({ next with subscriptions := s.subscriptions.tryEmplace topic.toZmqTopic entry },
          [cmd.send s.requestId])
    | .unsubscribe => ({ s with requests := s.requests.erase 0 }, [cmd.send 0])
    | _ => (s, [cmd.send 0])
  else (s, [cmd.send 0])

/-! ## Messages -/

/-- The commands that both clients read. -/
def isUpdate (command : Command) : Bool := command == .notify || command == .final

/-- `Client::handleMessage`; `none` where it returns false. -/
def handleMessage (message : BrokerMessage) : Option Message :=
  if isUpdate message.command then
    some { message with
      sourceId := [], id := some (((fromChars message.clientRequestID).map (·.1)).getD 0) }
  else none

/-- `SubscriptionClient::handleMessage`, which returns true in any case. -/
def handleSubscriptionMessage (message : BrokerMessage) (output : Message) : Message :=
  if isUpdate message.command then
    { output with
      data := message.data, error := message.error, serviceName := message.sourceId,
      topic := message.topic, clientRequestID := message.clientRequestID, rbac := message.rbac,
      id := some 0 }
  else output

/-- `client->receive(receivedEvent)` on a socket with a message. -/
def receive (client : Client) (message : BrokerMessage) (receivedEvent : Message) :
    Option Message :=
  match client.scheme with
  | .mdp => handleMessage message
  | .mds => some (handleSubscriptionMessage message receivedEvent)

/-- The calls of a subscription's callback for an event. -/
def updates (event : Message) : List Output :=
  match s.subscriptions.lookup event.serviceName with
  | some subscription => [.update subscription.callback event]
  | none => []

/-- The calls of a request's callback for an event with this number. -/
def replies (id : UInt64) (event : Message) : List Output :=
  match s.requests.lookup id with
  | some request => [.reply request.callback event]
  | none => []

/-- The body of the loop of `poll`; it looks for a request even if the number
was never written, which is undefined. -/
def dispatch (event : Message) (s : State) : Option (State × List Output) :=
  match event.id with
  | none => none
  | some id =>
    some ({ s with requests := s.requests.erase id }, updates s event ++ replies s id event)

def step : Event → Option (State × List Output)
  | .request cmd => some (request cmd s)
  | .poll client => some ({ s with polled := some (client, {}) }, [])
  | .receive message =>
    match s.polled with
    | none => none
    | some (client, receivedEvent) =>
      match receive client message receivedEvent with
      -- the loop over this client ends
      | none => some ({ s with polled := none }, [])
      | some event => dispatch event { s with polled := some (client, event) }

/-- What one command does to the tables. -/
theorem request_cases :
    (cmd.callback = true ∧ (cmd.command = .get ∨ cmd.command = .set) ∧
      request cmd s = ({ s with
        issued := s.issued + 1, requestId := s.requestId + 1,
        requests := s.requests.tryEmplace s.requestId { uri := cmd.topic, callback := s.issued } },
        [cmd.send s.requestId])) ∨
    (cmd.callback = true ∧ cmd.command = .subscribe ∧ ∃ topic,
      Topic.fromMdpTopic cmd.topic = .ok topic ∧
      request cmd s = ({ s with
        issued := s.issued + 1, requestId := s.requestId + 1,
        subscriptions := s.subscriptions.tryEmplace topic.toZmqTopic
          { uri := cmd.topic, callback := s.issued } },
        [cmd.send s.requestId])) ∨
    (cmd.callback = true ∧ cmd.command = .subscribe ∧ ∃ e, Topic.fromMdpTopic cmd.topic = .error e ∧
      request cmd s = ({ s with issued := s.issued + 1, requestId := s.requestId + 1 },
        [.threw e])) ∨
    (cmd.callback = true ∧ cmd.command = .unsubscribe ∧
      request cmd s = ({ s with issued := s.issued + 1, requests := s.requests.erase 0 },
        [cmd.send 0])) ∨
    (¬(cmd.callback = true ∧ cmd.command ∈ [.get, .set, .subscribe, .unsubscribe]) ∧
      request cmd s = ({ s with issued := s.issued + 1 }, [cmd.send 0])) := by
  unfold request
  by_cases hcb : cmd.callback = true
  · simp only [hcb, if_true, true_and]
    cases hcmd : cmd.command with
    | get => exact inl ⟨inl rfl, rfl⟩
    | set => exact inl ⟨inr rfl, rfl⟩
    | subscribe =>
      cases htopic : Topic.fromMdpTopic cmd.topic with
      | error e => exact inr (inr (inl ⟨rfl, e, rfl, rfl⟩))
      | ok topic => exact inr (inl ⟨rfl, topic, rfl, rfl⟩)
    | unsubscribe => exact inr (inr (inr (inl ⟨rfl, rfl⟩)))
    | invalid | partial_ | final | ready | disconnect | notify | heartbeat =>
      exact inr (inr (inr (inr ⟨by decide, rfl⟩)))
  · rw [if_neg hcb]
    exact inr (inr (inr (inr ⟨fun h => hcb h.1, rfl⟩)))

/-- A message either ends the loop over its client or is dispatched. -/
theorem step_receive {s s' : State} {message : BrokerMessage} {out : List Output}
    (h : step s (.receive message) = some (s', out)) :
    ∃ client receivedEvent, s.polled = some (client, receivedEvent) ∧
      ((receive client message receivedEvent = none ∧ s' = { s with polled := none } ∧ out = []) ∨
        ∃ event id, receive client message receivedEvent = some event ∧ event.id = some id ∧
          s' = { s with requests := s.requests.erase id, polled := some (client, event) } ∧
          out = updates s event ++ replies s id event) := by
  unfold step at h
  cases hpolled : s.polled with
  | none =>
    rw [hpolled] at h
    cases h
  | some polled =>
    obtain ⟨client, receivedEvent⟩ := polled
    rw [hpolled] at h
    refine ⟨client, receivedEvent, rfl, ?_⟩
    dsimp only at h
    cases hreceive : receive client message receivedEvent with
    | none =>
      rw [hreceive] at h
      cases h
      exact inl ⟨rfl, rfl, rfl⟩
    | some event =>
      rw [hreceive] at h
      unfold dispatch at h
      dsimp only at h
      cases hid : event.id with
      | none =>
        rw [hid] at h
        cases h
      | some id =>
        rw [hid] at h
        cases h
        exact inr ⟨event, id, rfl, hid, rfl, rfl⟩

end OpenCmw.MdClient
