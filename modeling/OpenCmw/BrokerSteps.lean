import OpenCmw.Broker

/-!
# What the handlers of the broker can do

One inversion per handler, so that no later proof has to unfold one.

* Outputs: which functions put out which kind of message
  (`dispatch_outputs`, `registerNewService_outputs`, ...). Only `dispatch`
  sends requests, and only a NOTIFY makes copies for subscribers.
* Clients: `processClients` takes requests off the clients' queues until one
  is served (`ClientsProcessed`).
* Workers: a message of a worker ends in one of the branches of
  `WorkerProcessed`.
* Steps: `step_eq_ok` says of every event what its step does to the workers,
  the services and the clients.
-/

namespace OpenCmw

open Or (inl inr)
open List

/-! ## Outputs -/

/-- What an output is for: a request to a worker, a reply to a client, a copy
of a notification for a client, or none of these. -/
inductive OutputKind where
  | request
  | reply
  | copy
  | other
  deriving DecidableEq, Repr

def Output.kind : Output → OutputKind
  | request .. => .request
  | reply .. => .reply
  | notification .. | restNotification .. => .copy
  | _ => .other

/-- The requests to workers among the outputs. -/
def requestsOf (out : List Output) : List Output := out.filter fun o => o.kind = .request

theorem requestsOf_append (out out' : List Output) :
    requestsOf (out ++ out') = requestsOf out ++ requestsOf out' := filter_append ..

theorem requestsOf_eq_self {out : List Output} (h : ∀ o ∈ out, o.kind = .request) :
    requestsOf out = out :=
  filter_eq_self.mpr fun o ho => decide_eq_true (h o ho)

theorem requestsOf_eq_nil {out : List Output} (h : ∀ o ∈ out, o.kind ≠ .request) :
    requestsOf out = [] :=
  filter_eq_nil_iff.mpr fun o ho hk => h o ho (of_decide_eq_true hk)

theorem no_copies {out : List Output} {kind : OutputKind} (hkind : kind ≠ .copy)
    (h : ∀ o ∈ out, o.kind = kind) : ∀ o ∈ out, o.kind ≠ .copy :=
  fun o ho => h o ho ▸ hkind

theorem eq_of_ok_eq {ε α β : Type} {x : α × β} {a : α} {b : β}
    (h : (.ok x : Except ε (α × β)) = .ok (a, b)) : x.1 = a ∧ x.2 = b := by
  cases h
  exact ⟨rfl, rfl⟩

namespace Pool

variable {now : Int} {name : Bytes} {p p' : Pool} {out : List Output}

theorem purgeService_outputs (h : purgeService now name p = .ok (p', out)) : out = [] := by
  unfold purgeService at h
  split at h
  · cases h
    rfl
  · obtain ⟨r, -, heq⟩ := map_eq_ok.mp h
    exact (Prod.mk.inj heq).2.symm

theorem purgeWorkers_outputs (h : purgeWorkers now p = .ok (p', out)) : out = [] := by
  refine eq_nil_iff_forall_not_mem.mpr (forEach_outputs ?_ h)
  intro name s s' o hs
  rw [purgeService_outputs hs]
  simp

theorem dispatchLoop_outputs {workers : UMap Bytes Worker} :
    ∀ {waiting : List Nat} {q : RequestQueue} {r : List Nat × RequestQueue × List Output},
      dispatchLoop name workers waiting q = .ok r → ∀ o ∈ r.2.2, o.kind = .request
  | [], q, r, h => by
    cases h
    simp
  | addr :: rest, q, r, h => by
    unfold dispatchLoop at h
    split_ifs at h with hpos
    · split at h
      · cases h
      · obtain ⟨_, -, h⟩ := bind_eq_ok.mp h
        obtain ⟨d, hd, rfl⟩ := map_eq_ok.mp h
        rintro o (_ | ⟨_, ho⟩)
        · rfl
        · exact dispatchLoop_outputs hd o ho
    · cases h
      simp

theorem dispatch_outputs
    (h : dispatch now p name = .ok (p', out)) : ∀ o ∈ out, o.kind = .request := by
  obtain ⟨r, -, h⟩ := bind_eq_ok.mp h
  split at h
  · cases h
  · obtain ⟨d, hd, heq⟩ := map_eq_ok.mp h
    cases heq
    exact dispatchLoop_outputs hd

theorem handOver_outputs {message : BrokerMessage} (h : handOver now p name message = .ok (p', out)) :
    ∀ o ∈ out, o.kind = .request := by
  unfold handOver at h
  split at h
  · cases h
  · exact dispatch_outputs h

theorem workerWaiting_outputs {cfg : Config} {clock : Clock} {worker : Worker} (h : workerWaiting cfg clock p worker = .ok (p', out)) :
    ∀ o ∈ out, o.kind = .request := by
  unfold workerWaiting at h
  split at h
  · cases h
  · exact dispatch_outputs h

theorem heartbeats_outputs {r : Unit × List Output} (h : p.heartbeats = .ok r) :
    ∀ o ∈ r.2, o.kind = .other := by
  refine forEach_outputs ?_ h
  intro addr _ _ out hrnd
  obtain ⟨_, -, heq⟩ := map_eq_ok.mp hrnd
  cases heq
  exact forall_mem_singleton.mpr rfl

end Pool

namespace Dns

variable {cfg : Config} {clock : Clock} {dns dns' : Dns} {out : List Output}

theorem registerNewService_outputs {serviceName : Bytes}
    (h : registerNewService cfg clock serviceName dns = .ok (dns', out)) :
    ∀ o ∈ out, o.kind = .other := by
  refine forEach_outputs ?_ h
  intro address s s' out hrnd
  obtain ⟨_, -, heq⟩ := bind_eq_ok.mp hrnd
  cases heq
  exact forall_mem_singleton.mpr rfl

theorem sendDnsHeartbeats_outputs {force : Bool} {services : List Bytes}
    (h : sendDnsHeartbeats cfg clock force services dns = .ok (dns', out)) :
    ∀ o ∈ out, o.kind = .other := by
  unfold sendDnsHeartbeats at h
  split_ifs at h with hdue
  · obtain ⟨⟨d, out₁⟩, hown, h⟩ := bind_eq_ok.mp h
    obtain ⟨⟨_, _⟩, hsvcs, heq⟩ := map_eq_ok.mp h
    cases heq
    have hout₁ : ∀ o ∈ out₁, o.kind = .other := by
      refine forEach_outputs ?_ hown
      intro address s s' out hrnd
      cases hrnd
      exact forall_mem_singleton.mpr rfl
    exact forall_mem_append.mpr
      ⟨hout₁, forEach_outputs (fun _ _ _ _ => registerNewService_outputs) hsvcs⟩
  · cases h
    simp

theorem purgeDnsServices_outputs {now : Int} {services : List Bytes}
    (h : purgeDnsServices cfg clock now services dns = .ok (dns', out)) :
    ∀ o ∈ out, o.kind = .other := by
  unfold purgeDnsServices at h
  split_ifs at h with hnow
  · cases h
    simp
  · obtain ⟨⟨d, _⟩, hsend, heq⟩ := map_eq_ok.mp h
    cases heq
    refine forall_mem_append.mpr ⟨sendDnsHeartbeats_outputs hsend, fun o ho => ?_⟩
    obtain ⟨_, -, rfl⟩ := mem_map.mp ho
    rfl

end Dns

namespace Subscriptions

variable {s s' : Subscriptions} {topic : Topic} {out : List Output}

theorem subscribe_outputs (h : s.subscribe topic = .ok (s', out)) : ∀ o ∈ out, o.kind = .other := by
  unfold subscribe at h
  dsimp only at h
  split_ifs at h with hmax hone
  · cases h
    exact forall_mem_singleton.mpr rfl
  · cases h
    simp

theorem addClient_outputs {client : Bytes} (h : s.addClient topic client = .ok (s', out)) :
    ∀ o ∈ out, o.kind = .other := by
  obtain ⟨⟨_, _⟩, hsub, heq⟩ := map_eq_ok.mp h
  cases heq
  exact subscribe_outputs hsub

theorem unsubscribe_outputs (s : Subscriptions) (topic : Topic) :
    ∀ o ∈ (s.unsubscribe topic).2, o.kind = .other := by
  unfold unsubscribe
  split
  · simp
  · split_ifs with hone
    · exact forall_mem_singleton.mpr rfl
    · simp

end Subscriptions

namespace Broker

variable {cfg : Config} {origin : Origin} {id : Bytes} {socket : Option Socket}
  {message : BrokerMessage} {clock : Clock} {b b' : Broker} {worker : Worker}

/-- A reply is sent once, or not at all for want of a REST server. -/
theorem sendReply_eq_ok {out : List Output} (h : sendReply cfg origin id socket message = .ok out) :
    (id = kRestSourceId ∧ (out = [] ∨ out = [.restResponse origin message])) ∨
      ∃ socket, id ≠ kRestSourceId ∧ out = [.reply origin id socket message] := by
  unfold sendReply at h
  split_ifs at h with hid hrest
  · cases h
    exact inl ⟨hid, inr rfl⟩
  · cases h
    exact inl ⟨hid, inl rfl⟩
  · split at h
    · cases h
      exact inr ⟨_, hid, rfl⟩
    · cases h

theorem sendReply_outputs {out : List Output}
    (h : sendReply cfg origin id socket message = .ok out) :
    ∀ o ∈ out, o.kind = .reply ∨ o.kind = .other := by
  intro o ho
  rcases sendReply_eq_ok h with ⟨-, rfl | rfl⟩ | ⟨s, -, rfl⟩
  · cases ho
  · rw [mem_singleton.mp ho]
    exact inr rfl
  · rw [mem_singleton.mp ho]
    exact inl rfl

theorem requestsOf_sendReply {out : List Output}
    (h : sendReply cfg origin id socket message = .ok out) : requestsOf out = [] := by
  refine requestsOf_eq_nil fun o ho => ?_
  rcases sendReply_outputs h o ho with hk | hk <;> rw [hk] <;> nofun

theorem sendReply_not_copy {out : List Output}
    (h : sendReply cfg origin id socket message = .ok out) : ∀ o ∈ out, o.kind ≠ .copy := by
  intro o ho
  rcases sendReply_outputs h o ho with hk | hk <;> rw [hk] <;> nofun

/-- Subscribers get copies, nothing else. -/
theorem copies_outputs {s : Subscriptions}
    {out : List Output} (h : s.dispatchMessageToMatchingSubscribers cfg message = .ok out) :
    ∀ o ∈ out, o.kind = .copy ∨ o.kind = .other := by
  obtain ⟨parsed, -, rfl⟩ := map_eq_ok.mp h
  intro o ho
  cases parsed with
  | none => cases ho
  | some notification =>
    obtain ⟨_, -, ho⟩ := mem_flatMap.mp ho
    split_ifs at ho
    · rcases mem_cons.mp ho with rfl | ho
      · exact inr rfl
      · split at ho
        · cases ho
        · obtain ⟨_, -, ho⟩ := mem_flatMap.mp ho
          split_ifs at ho
          · rw [mem_singleton.mp ho]
            exact inl rfl
          · cases ho
          · rw [mem_singleton.mp ho]
            exact inl rfl
    · cases ho

/-! ## Requests of clients -/

/-- The first of the client's requests is taken out of its queue. -/
def popRequest (b : Broker) (id : Bytes) (client : Client) (requests : List BrokerMessage) :
    Broker :=
  { b with clients := b.clients.insert id { client with requests } }

theorem serveRequest_eq_ok {client : Client} {name : Bytes} {out : List Output}
    (h : serveRequest cfg clock b client message name = .ok (b', out)) :
    (∃ handler reply, b.handleInternally cfg message handler = .ok reply ∧
        sendReply cfg .internal client.id client.socket reply = .ok out ∧ b' = b) ∨
      ∃ pool, b.pool.handOver clock.purge name message = .ok (pool, out) ∧
        b' = { b with pool } := by
  unfold serveRequest at h
  split at h
  · cases h
  · split at h
    · next handler _ =>
      obtain ⟨reply, hreply, h⟩ := bind_eq_ok.mp h
      obtain ⟨sent, hsent, heq⟩ := map_eq_ok.mp h
      cases heq
      exact inl ⟨handler, reply, hreply, hsent, rfl⟩
    · obtain ⟨⟨pool, sent⟩, hpool, heq⟩ := map_eq_ok.mp h
      cases heq
      exact inr ⟨pool, hpool, rfl⟩

/-- What `processClients` does: requests for services that do not exist are
answered one after the other until one is served. -/
inductive ClientsProcessed (cfg : Config) (clock : Clock) :
    Broker → Broker → List Output → Prop
  | done (b : Broker) : ClientsProcessed cfg clock b b []
  | unknown {b b' : Broker} {id : Bytes} {client : Client} {request : BrokerMessage}
      {requests : List BrokerMessage} {out out' : List Output}
      (hclient : b.clients.lookup id = some client)
      (hrequests : client.requests = request :: requests)
      (hsent : sendReply cfg .unknownService client.id client.socket
        (unknownServiceReply (applyRbacHandler cfg request)) = .ok out)
      (hrest : ClientsProcessed cfg clock (b.popRequest id client requests) b' out') :
      ClientsProcessed cfg clock b b' (out ++ out')
  | served {b b' : Broker} {id name : Bytes} {client : Client} {request : BrokerMessage}
      {requests : List BrokerMessage} {out : List Output}
      (hclient : b.clients.lookup id = some client)
      (hrequests : client.requests = request :: requests)
      (hserved : serveRequest cfg clock (b.popRequest id client requests) client
        (applyRbacHandler cfg request) name = .ok (b', out)) :
      ClientsProcessed cfg clock b b' out

theorem processClientsLoop_eq_ok : ∀ {ids : List Bytes} {b b' : Broker} {out : List Output},
      processClientsLoop cfg clock ids b = .ok (b', out) → ClientsProcessed cfg clock b b' out
  | [], b, b', out, h => by
    cases h
    exact .done b
  | id :: ids, b, b', out, h => by
    unfold processClientsLoop at h
    split at h
    · exact processClientsLoop_eq_ok h
    · next client hcl =>
      split at h
      · exact processClientsLoop_eq_ok h
      · next request requests hreqs =>
        dsimp only at h
        split at h
        · exact .served hcl hreqs h
        · obtain ⟨_, hsent, h⟩ := bind_eq_ok.mp h
          obtain ⟨⟨_, _⟩, hrest, heq⟩ := map_eq_ok.mp h
          cases heq
          exact .unknown hcl hreqs hsent (processClientsLoop_eq_ok hrest)

theorem ClientsProcessed.frame {out : List Output} (h : ClientsProcessed cfg clock b b' out) :
    b'.subscriptions = b.subscriptions ∧ b'.dns = b.dns ∧ ∀ o ∈ out, o.kind ≠ .copy := by
  induction h with
  | done b => exact ⟨rfl, rfl, by simp⟩
  | unknown _ _ hsent _ ih =>
    exact ⟨ih.1, ih.2.1, forall_mem_append.mpr ⟨sendReply_not_copy hsent, ih.2.2⟩⟩
  | served _ _ hserved =>
    rcases serveRequest_eq_ok hserved with ⟨_, _, -, hsent, rfl⟩ | ⟨_, hpool, rfl⟩
    · exact ⟨rfl, rfl, sendReply_not_copy hsent⟩
    · exact ⟨rfl, rfl, no_copies (by decide) (Pool.handOver_outputs hpool)⟩

/-! ## Messages of workers -/

/-- The pool after the sender of a worker's message has been looked up or
entered, and the sender. -/
def sender (cfg : Config) (clock : Clock) (socket : Socket) (b : Broker)
    (message : BrokerMessage) : Pool × Worker :=
  b.pool.emplaceWorker cfg clock socket message.sourceId message.serviceName

/-- The branches of `processWorker`; `b` is the state with the sender entered. -/
inductive WorkerProcessed (cfg : Config) (clock : Clock) (known : Prop) (worker : Worker)
    (message : BrokerMessage) (b : Broker) : Broker → List Output → Prop
  | ready {b' out} (hcommand : message.command = .ready)
      (h : b.workerReady cfg clock worker message = .ok (b', out)) :
      WorkerProcessed cfg clock known worker message b b' out
  | reply {b' out} (hcommand : message.command = .partial_ ∨ message.command = .final)
      (hknown : known) (h : b.workerReply cfg clock worker message = .ok (b', out)) :
      WorkerProcessed cfg clock known worker message b b' out
  | disconnected (hcommand : message.command ≠ .notify) (hunknown : ¬known) :
      WorkerProcessed cfg clock known worker message b
        { b with pool := (b.pool.disconnectWorker worker).1 } (b.pool.disconnectWorker worker).2
  | notify {out} (hcommand : message.command = .notify)
      (h : b.subscriptions.dispatchMessageToMatchingSubscribers cfg
        (toSubscribers message worker) = .ok out) :
      WorkerProcessed cfg clock known worker message b b out
  | renewed (hcommand : message.command = .heartbeat) (hknown : known) :
      WorkerProcessed cfg clock known worker message b
        { b with pool := b.pool.setWorker (worker.renew cfg clock.arrival) } []
  | ignored (hcommand : message.command ∈
        [.invalid, .get, .set, .disconnect, .subscribe, .unsubscribe]) :
      WorkerProcessed cfg clock known worker message b b []

theorem processWorker_eq_ok {socket : Socket} {out : List Output}
    (h : processWorker cfg clock socket b message = .ok (b', out)) :
    WorkerProcessed cfg clock (message.sourceId ∈ b.pool.workers)
      (sender cfg clock socket b message).2 message
      { b with pool := (sender cfg clock socket b message).1 } b' out := by
  unfold processWorker at h
  dsimp only at h
  cases hcmd : message.command with
  | ready =>
    rw [hcmd] at h
    exact .ready hcmd h
  | partial_ =>
    rw [hcmd] at h
    split_ifs at h with hknown
    · exact .reply (inl hcmd) (of_decide_eq_true hknown) h
    · cases h
      exact .disconnected (by simp [hcmd]) (fun hk => hknown (decide_eq_true hk))
  | final =>
    rw [hcmd] at h
    split_ifs at h with hknown
    · exact .reply (inr hcmd) (of_decide_eq_true hknown) h
    · cases h
      exact .disconnected (by simp [hcmd]) (fun hk => hknown (decide_eq_true hk))
  | notify =>
    rw [hcmd] at h
    obtain ⟨_, hsent, heq⟩ := map_eq_ok.mp h
    cases heq
    exact .notify hcmd hsent
  | heartbeat =>
    rw [hcmd] at h
    split_ifs at h with hknown
    · cases h
      exact .renewed hcmd (of_decide_eq_true hknown)
    · cases h
      exact .disconnected (by simp [hcmd]) (fun hk => hknown (decide_eq_true hk))
  | invalid | get | set | disconnect | subscribe | unsubscribe =>
    rw [hcmd] at h
    cases h
    exact .ignored (by simp [hcmd])

theorem workerReady_eq_ok {out : List Output}
    (h : workerReady cfg clock b worker message = .ok (b', out)) :
    ∃ pool dns requests others,
      (b.pool.requireService cfg message.serviceName message.data).workerWaiting cfg clock
        worker = .ok (pool, requests) ∧
      b' = { b with pool, dns } ∧ out = requests ++ others ∧ ∀ o ∈ others, o.kind = .other := by
  obtain ⟨⟨pool, requests⟩, hpool, h⟩ := bind_eq_ok.mp h
  obtain ⟨⟨dns, _⟩, hdns, heq⟩ := map_eq_ok.mp h
  cases heq
  exact ⟨pool, dns, requests, _, hpool, rfl, append_assoc .., forall_mem_append.mpr
    ⟨Dns.registerNewService_outputs hdns, forall_mem_singleton.mpr rfl⟩⟩

theorem workerReply_eq_ok {out : List Output}
    (h : workerReply cfg clock b worker message = .ok (b', out)) :
    (b.clients.lookup message.serviceName = none ∧ b' = b ∧ out = []) ∨
      ∃ client pool sent requests, b.clients.lookup message.serviceName = some client ∧
        sendReply cfg (.worker worker.id) message.serviceName client.socket
          (toClient message worker) = .ok sent ∧
        b.pool.workerWaiting cfg clock worker = .ok (pool, requests) ∧
        b' = { b with pool } ∧ out = sent ++ requests := by
  unfold workerReply at h
  split at h
  · next hcl =>
    cases h
    exact inl ⟨hcl, rfl, rfl⟩
  · next client hcl =>
    obtain ⟨sent, hsent, h⟩ := bind_eq_ok.mp h
    obtain ⟨⟨pool, requests⟩, hpool, heq⟩ := map_eq_ok.mp h
    cases heq
    exact inr ⟨client, pool, sent, requests, hcl, hsent, hpool, rfl, rfl⟩

theorem WorkerProcessed.frame {known : Prop} {out : List Output}
    (h : WorkerProcessed cfg clock known worker message b b' out) :
    b'.subscriptions = b.subscriptions ∧ b'.clients = b.clients := by
  cases h with
  | ready _ h =>
    obtain ⟨pool, _, _, _, -, rfl, -, -⟩ := workerReady_eq_ok h
    exact ⟨rfl, rfl⟩
  | reply _ _ h =>
    rcases workerReply_eq_ok h with ⟨-, rfl, -⟩ | ⟨_, pool, _, _, -, -, -, rfl, -⟩
    · exact ⟨rfl, rfl⟩
    · exact ⟨rfl, rfl⟩
  | disconnected | notify | renewed | ignored => exact ⟨rfl, rfl⟩

theorem WorkerProcessed.not_copy {known : Prop} {out : List Output}
    (h : WorkerProcessed cfg clock known worker message b b' out)
    (hcmd : message.command ≠ .notify) : ∀ o ∈ out, o.kind ≠ .copy := by
  cases h with
  | ready _ h =>
    obtain ⟨_, _, _, _, hpool, -, rfl, hothers⟩ := workerReady_eq_ok h
    exact forall_mem_append.mpr ⟨no_copies (by decide) (Pool.workerWaiting_outputs hpool),
      no_copies (by decide) hothers⟩
  | reply _ _ h =>
    rcases workerReply_eq_ok h with ⟨-, -, rfl⟩ | ⟨_, _, _, _, -, hsent, hpool, -, rfl⟩
    · exact forall_mem_nil _
    · exact forall_mem_append.mpr ⟨sendReply_not_copy hsent,
        no_copies (by decide) (Pool.workerWaiting_outputs hpool)⟩
  | disconnected => exact forall_mem_singleton.mpr (show OutputKind.other ≠ .copy by decide)
  | notify h => exact absurd h hcmd
  | renewed | ignored => exact forall_mem_nil _

/-! ## Steps -/

/-- The event is a message of a worker. -/
def Event.fromWorker : Event → Bool
  | .message _ _ received => decide (received.protocolName ≠ clientProtocol)
  | _ => false

/-- What a step can do to the workers, services and clients. -/
inductive Stepped (cfg : Config) (b : Broker) : Event → Broker → List Output → Prop
  | worker {clock : Clock} {socket : Socket} {message : BrokerMessage} {b' : Broker}
      {out : List Output} (hprotocol : message.protocolName ≠ clientProtocol)
      (h : WorkerProcessed cfg clock (message.sourceId ∈ b.pool.workers)
        (sender cfg clock socket b message).2 message
        { b with pool := (sender cfg clock socket b message).1 } b' out) :
      Stepped cfg b (.message clock socket message) b' out
  | queued {clock : Clock} {socket : Socket} {message : BrokerMessage} {expiry : Int} {dns : Dns}
      {out : List Output} (hprotocol : message.protocolName = clientProtocol)
      (hcommand : message.command ∉ [.ready, .subscribe, .unsubscribe])
      (hout : ∀ o ∈ out, o.kind = .other) :
      Stepped cfg b (.message clock socket message)
        ({ b with dns }.queueRequest message
          { socket := some socket, id := message.sourceId, expiry }) out
  | restQueued {message : BrokerMessage} (hrest : cfg.restServer = true)
      (hcommand : message.command = .get ∨ message.command = .set) :
      Stepped cfg b (.restMessage message)
        (b.queueRequest (fromRest message) { socket := none, id := kRestSourceId }) []
  | clients {clock : Clock} {b' : Broker} {out : List Output}
      (h : ClientsProcessed cfg clock b b' out) : Stepped cfg b (.processClients clock) b' out
  | purgeWorkers {now : Int} {pool : Pool} (h : b.pool.purgeWorkers now = .ok (pool, [])) :
      Stepped cfg b (.purgeWorkers now) { b with pool } []
  | purgeClients (now : Int) : Stepped cfg b (.purgeClients now) (b.purgeClients cfg now) []
  | cleanup {b' : Broker} {out : List Output} (h : b.cleanup = .ok (b', out)) :
      Stepped cfg b .cleanup b' out
  | rehash {b' : Broker} (h : Reordered b b') : Stepped cfg b (.rehash b') b' []
  | other {e : Event} {b' : Broker} {out : List Output} (hworker : e.fromWorker = false)
      (hpool : b'.pool = b.pool) (hclients : b'.clients = b.clients) (hout : ∀ o ∈ out, o.kind = .other) :
      Stepped cfg b e b' out

section
variable {cfg : Config} {clock : Clock} {socket : Socket} {b b' : Broker}
  {message : BrokerMessage} {out : List Output}

theorem changeSubscription_stepped {e : Event} {isSubscribe : Bool} (hwkr : e.fromWorker = false)
    (h : b.changeSubscription message isSubscribe = .ok (b', out)) : Stepped cfg b e b' out := by
  obtain ⟨parsed, -, h⟩ := bind_eq_ok.mp h
  cases parsed with
  | none =>
    cases h
    exact .other hwkr rfl rfl (by simp)
  | some topic =>
    obtain ⟨⟨s, _⟩, hsubs, heq⟩ := map_eq_ok.mp h
    cases heq
    refine .other hwkr rfl rfl ?_
    cases isSubscribe with
    | true => exact Subscriptions.addClient_outputs hsubs
    | false =>
      obtain ⟨-, rfl⟩ := eq_of_ok_eq hsubs
      exact Subscriptions.unsubscribe_outputs b.subscriptions topic

theorem receiveClientMessage_stepped (hprot : message.protocolName = clientProtocol)
    (h : b.receiveClientMessage cfg clock socket message = .ok (b', out)) :
    Stepped cfg b (.message clock socket message) b' out := by
  have hwkr : (Event.message clock socket message).fromWorker = false := by
    simp [Event.fromWorker, hprot]
  unfold receiveClientMessage at h
  cases hcmd : message.command with
  | ready =>
    rw [hcmd] at h
    cases h
    exact .other hwkr rfl rfl (by simp)
  | subscribe | unsubscribe =>
    rw [hcmd] at h
    exact changeSubscription_stepped hwkr h
  | heartbeat =>
    rw [hcmd] at h
    obtain ⟨⟨_, _⟩, hdns, heq⟩ := map_eq_ok.mp h
    cases heq
    exact .queued hprot (by simp [hcmd]) (Dns.sendDnsHeartbeats_outputs hdns)
  | invalid | get | set | partial_ | final | disconnect | notify =>
    rw [hcmd] at h
    cases h
    exact .queued hprot (by simp [hcmd]) (by simp)

theorem handleRestMessage_stepped (hrest : cfg.restServer = true)
    (h : b.handleRestMessage message = .ok (b', out)) :
    Stepped cfg b (.restMessage message) b' out := by
  unfold handleRestMessage at h
  cases hcmd : message.command with
  | get =>
    rw [hcmd] at h
    cases h
    exact .restQueued hrest (inl hcmd)
  | set =>
    rw [hcmd] at h
    cases h
    exact .restQueued hrest (inr hcmd)
  | subscribe | unsubscribe =>
    rw [hcmd] at h
    exact changeSubscription_stepped rfl h
  | heartbeat | ready | invalid | partial_ | final | disconnect | notify =>
    rw [hcmd] at h
    cases h
    exact .other rfl rfl rfl (by simp)

theorem receivePubMessage_outputs {s s' : Subscriptions} {data : Bytes}
    (h : s.receivePubMessage data = .ok (s', out)) : ∀ o ∈ out, o.kind = .other := by
  unfold Subscriptions.receivePubMessage at h
  split at h
  · next kind c rest =>
    by_cases hkind : kind = 0 ∨ kind = 1
    · rw [if_pos hkind] at h
      obtain ⟨parsed, -, h⟩ := bind_eq_ok.mp h
      cases parsed with
      | none =>
        cases h
        simp
      | some topic =>
        split_ifs at h with hone
        · exact Subscriptions.subscribe_outputs h
        · obtain ⟨-, rfl⟩ := eq_of_ok_eq h
          exact Subscriptions.unsubscribe_outputs s topic
    · rw [if_neg hkind] at h
      cases h
      simp
  · cases h
    simp

/-- Disconnecting the workers leaves the rest of the broker as it is. -/
theorem cleanup_frame (h : b.cleanup = .ok (b', out)) :
    b'.subscriptions = b.subscriptions ∧ b'.clients = b.clients ∧ ∀ o ∈ out, o.kind = .other := by
  have hrnd : ∀ {id s s' out}, cleanupWorker id s = .ok (s', out) →
      (s'.subscriptions = s.subscriptions ∧ s'.clients = s.clients) ∧
        ∀ o ∈ out, o.kind = .other := by
    intro id s s' out hrnd
    unfold cleanupWorker at hrnd
    split at hrnd
    · cases hrnd
      exact ⟨⟨rfl, rfl⟩, forall_mem_nil _⟩
    · cases hrnd
      exact ⟨⟨rfl, rfl⟩, forall_mem_singleton.mpr rfl⟩
  have hstate := forEach_invariant
    (fun s => s.subscriptions = b.subscriptions ∧ s.clients = b.clients)
    (fun id s s' out hs h => ⟨(hrnd h).1.1.trans hs.1, (hrnd h).1.2.trans hs.2⟩) h ⟨rfl, rfl⟩
  exact ⟨hstate.1, hstate.2, forEach_outputs (fun _ _ _ _ h => (hrnd h).2) h⟩

theorem step_eq_ok {e : Event} (h : step cfg b e = .ok (b', out)) : Stepped cfg b e b' out := by
  cases e with
  | message clock socket message =>
    simp only [step, receiveMessage] at h
    split_ifs at h with hprot
    · exact receiveClientMessage_stepped hprot h
    · exact .worker hprot (processWorker_eq_ok h)
  | pubMessage data =>
    obtain ⟨⟨s, sent⟩, hs, heq⟩ := map_eq_ok.mp h
    cases heq
    exact .other rfl rfl rfl (receivePubMessage_outputs hs)
  | restMessage message =>
    simp only [step] at h
    split_ifs at h with hrest
    · exact handleRestMessage_stepped hrest h
    · cases h
      exact .other rfl rfl rfl (by simp)
  | processClients clock => exact .clients (processClientsLoop_eq_ok h)
  | purgeWorkers now =>
    obtain ⟨⟨_, sent⟩, hpool, heq⟩ := map_eq_ok.mp h
    cases heq
    obtain rfl := Pool.purgeWorkers_outputs hpool
    exact .purgeWorkers hpool
  | purgeClients now =>
    cases h
    exact .purgeClients now
  | sendHeartbeats now sent =>
    simp only [step, sendHeartbeats] at h
    split_ifs at h with hnow
    · cases h
      exact .other rfl rfl rfl (by simp)
    · obtain ⟨r, hr, heq⟩ := map_eq_ok.mp h
      cases heq
      exact .other rfl rfl rfl (Pool.heartbeats_outputs hr)
  | purgeDnsServices clock now =>
    obtain ⟨⟨dns, sent⟩, hdns, heq⟩ := map_eq_ok.mp h
    cases heq
    exact .other rfl rfl rfl (Dns.purgeDnsServices_outputs hdns)
  | addDnsAddress clock register address | run clock =>
    obtain ⟨⟨dns, sent⟩, hdns, heq⟩ := map_eq_ok.mp h
    cases heq
    exact .other rfl rfl rfl (Dns.sendDnsHeartbeats_outputs hdns)
  | cleanup => exact .cleanup h
  | rehash b₁ =>
    simp only [step] at h
    split_ifs at h with hreordered
    · cases h
      exact .rehash hreordered
    · cases h
      exact .other rfl rfl rfl (by simp)

end

end Broker

end OpenCmw
