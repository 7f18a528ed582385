import OpenCmw.WorkerRotation

/-!
# Requests and their replies

A request travels from its client through the client's queue and the queue
of a service to a worker, with the client's id in the place of the service's
name, and the reply back the same way. `System` is the broker together with
its workers: what a worker has received and not answered is in flight, and a
worker sends a FINAL only as the answer to a request in flight
(`System.step`). Clients and workers are otherwise free.

The argument is a count. What a client has sent is in its queue, in the
queue of a service, or was handed to a worker (`step_conserves`), and what a
worker was handed is in flight or was answered, so no request is answered
twice, and none that was not sent (`routing_exact`).
-/

namespace OpenCmw

open Broker PriorityFifo List Option Nat UMap

/-! ## What is counted -/

/-- What a request keeps on its way: the client, the id that the client gave
it, and the command. -/
structure RequestKey where
  client : Bytes
  clientRequestID : Bytes
  command : Command
  deriving DecidableEq

/-- A request at the broker. -/
def BrokerMessage.key (m : BrokerMessage) : RequestKey :=
  ⟨m.sourceId, m.clientRequestID, m.command⟩

/-- A request as a worker receives it. -/
def BrokerMessage.handedKey (m : BrokerMessage) : RequestKey :=
  ⟨m.serviceName, m.clientRequestID, m.command⟩

/-- The requests that are handed to workers. -/
def handed (out : List Output) : List BrokerMessage :=
  out.filterMap fun
    | .request _ _ message => some message
    | _ => none

theorem handed_append (out out' : List Output) :
    handed (out ++ out') = handed out ++ handed out' := filterMap_append

theorem handed_requestsOf : ∀ out : List Output, handed (requestsOf out) = handed out
  | [] => rfl
  | o :: out => by
    have ih := handed_requestsOf out
    cases o with
    | request service socket message => exact congrArg (message :: ·) ih
    | reply | restResponse | publication | notification | restNotification | serviceNames
    | disconnect | heartbeat | dnsChallenge | dnsReady | subSocket => exact ih

section
variable (P : RequestKey → Bool)

/-- How many of the requests at a service count. -/
def Service.queued (s : Service) : Nat :=
  (contents s.requests.requestsByPriority).countP fun m => P m.key

def Pool.queued (p : Pool) : Nat := total (Service.queued P) p.services

def Broker.queued (b : Broker) : Nat :=
  total (fun client : Client => client.requests.countP fun m => P m.key) b.clients +
    b.pool.queued P

/-- How many of the requests that are handed out count. -/
def handedCount (out : List Output) : Nat := (handed out).countP fun m => P m.handedKey

end

/-! ## Services -/

namespace Pool

variable {P : RequestKey → Bool} {roles : List Bytes} {p p' : Pool} {now : Int}
  {out : List Output}

theorem handedCount_append (out out' : List Output) :
    handedCount P (out ++ out') = handedCount P out + handedCount P out' := by
  rw [handedCount, handed_append, countP_append]
  rfl

variable {name : Bytes} {s : Service} {cfg : Config} {Q : Pool → Worker → Prop}
  {put : List BrokerMessage}

theorem queued_setService (s' : Service) (hsvc : p.services.lookup name = some s) :
    (p.setService name s').queued P + s.queued P = p.queued P + s'.queued P := by
  have h := total_insert p.services name s' (Service.queued P)
  rw [hsvc, elim_some] at h
  exact h

/-- The requests of the service do not change. -/
theorem queued_setService_eq (s' : Service)
    (hsvc : p.services.lookup name = some s) (hreqs : s'.requests = s.requests) :
    (p.setService name s').queued P = p.queued P := by
  have h := queued_setService (P := P) s' hsvc
  have heq : s'.queued P = s.queued P := by rw [Service.queued, hreqs, Service.queued]
  omega

theorem purgeWorkers_queued (h : purgeWorkers now p = .ok (p', out)) :
    p'.queued P = p.queued P := by
  refine forEach_invariant (fun p₁ => p₁.queued P = p.queued P) ?_ h rfl
  intro name p₁ p₂ out heq hrnd
  unfold purgeService at hrnd
  split at hrnd
  · cases hrnd
    exact heq
  · next s hsvc =>
    obtain ⟨r, -, hr⟩ := map_eq_ok.mp hrnd
    cases hr
    rw [← heq]
    exact queued_setService_eq _ hsvc rfl

theorem Dispatched.queued {workers : UMap Bytes Worker}
    {waiting waiting' : List Nat} {q q' : RequestQueue}
    (h : Dispatched name workers waiting q waiting' q' out) :
    (contents q'.requestsByPriority).countP (fun m => P m.key) + handedCount P out =
      (contents q.requestsByPriority).countP fun m => P m.key := by
  induction h with
  | done => rfl
  | @take addr rest q message q₁ worker waiting' q' out _ htake _ _ ih =>
    obtain ⟨⟨m, r⟩, hd, heq⟩ := map_eq_some_iff.mp htake
    cases heq
    have hperm := (contents_dequeue hd).countP_eq fun m => P m.key
    have hhanded : handedCount P (.request name worker.socket (toWorker m worker) :: out) =
        handedCount P out + if P m.key then 1 else 0 :=
      countP_cons
    rw [countP_cons] at hperm
    dsimp only at ih ⊢
    omega

theorem dispatch_queued (h : dispatch now p name = .ok (p', out)) :
    p'.queued P + handedCount P out = p.queued P := by
  obtain ⟨⟨_, _⟩, hpurge, h⟩ := bind_eq_ok.mp h
  have hpurged := purgeWorkers_queued (P := P) hpurge
  split at h
  · cases h
  · next s hsvc =>
    obtain ⟨d, hd, heq⟩ := map_eq_ok.mp h
    cases heq
    have hloop := (dispatchLoop_eq_ok hd).queued (P := P)
    have hset := queued_setService (P := P) { s with waiting := d.1, requests := d.2.1 }
      hsvc
    dsimp only [Service.queued] at hset hloop ⊢
    omega

theorem putMessage_queued (hs : Sound roles p)
    (hsvc : p.services.lookup name = some s) (message : BrokerMessage) :
    (p.setService name { s with requests := s.requests.putMessage message }).queued P =
      p.queued P + if P message.key then 1 else 0 := by
  obtain ⟨_, hq⟩ := hs.queue hsvc
  have hlt := RequestQueue.queueForRole_lt hq.roles_eq.length_pos (ParseRbac.role message.rbac)
  have hperm := (contents_enqueueAt (a := message) hlt).countP_eq fun m => P m.key
  rw [countP_cons] at hperm
  have hset := queued_setService (P := P)
    { s with requests := s.requests.putMessage message } hsvc
  dsimp only [Service.queued, RequestQueue.putMessage] at hset
  dsimp only [RequestQueue.putMessage]
  omega

theorem queued_of_empty (h : s.requests = RequestQueue.empty roles) : s.queued P = 0 := by
  have hnil : contents (RequestQueue.empty roles).requestsByPriority = [] := by
    unfold contents RequestQueue.empty RequestQueue.makePriorityQueue
    split_ifs <;> simp
  rw [Service.queued, h, hnil, countP_nil]

/-- What is put is queued or handed out. -/
theorem Change.queued (h : Change cfg Q p put p' out) (hs : Sound cfg.roles p) :
    p'.queued P + handedCount P out = p.queued P + put.countP fun m => P m.key := by
  induction h with
  | refl => rfl
  | reorder _ hsvcs _ => exact (total_perm hsvcs (Service.queued P)).symm
  | purge h =>
    rw [purgeWorkers_outputs h, purgeWorkers_queued h]
    rfl
  | @handOver now p p' name message out h =>
    obtain ⟨s, hsvc, hd⟩ := handOver_eq_ok h
    rw [dispatch_queued hd, putMessage_queued hs hsvc message]
    simp
  | require p name description =>
    exact total_tryEmplace p.services name (queued_of_empty rfl)
  | renew => rfl
  | @waiting clock p p' w out hw _ h =>
    obtain ⟨s, hsvc, hd⟩ := workerWaiting_eq_ok h
    rw [dispatch_queued hd]
    exact queued_setService_eq { s with waiting := s.waiting ++ [w.addr] } hsvc rfl
  | @delete p w hw =>
    unfold deleteWorker
    split
    · rfl
    · next s hsvc => exact queued_setService_eq { s with waiting := _ } hsvc rfl
  | trans h _ ih ih' =>
    have h₁ := ih hs
    have h₂ := ih' (h.sound hs)
    rw [handedCount_append, countP_append]
    omega

/-- Requests are handed out in the workers' protocol. -/
theorem Dispatched.protocol {workers : UMap Bytes Worker}
    {waiting waiting' : List Nat} {q q' : RequestQueue}
    (h : Dispatched name workers waiting q waiting' q' out) :
    ∀ m ∈ handed out, m.protocolName = workerProtocol := by
  induction h with
  | done => exact nofun
  | take _ _ _ _ ih =>
    intro m hm
    rcases mem_cons.mp hm with rfl | hm
    · rfl
    · exact ih m hm

theorem dispatch_protocol (h : dispatch now p name = .ok (p', out)) :
    ∀ m ∈ handed out, m.protocolName = workerProtocol := by
  obtain ⟨r, -, h⟩ := bind_eq_ok.mp h
  split at h
  · cases h
  · obtain ⟨d, hd, heq⟩ := map_eq_ok.mp h
    cases heq
    exact (dispatchLoop_eq_ok hd).protocol

theorem Change.protocol
    (h : Change cfg Q p put p' out) : ∀ m ∈ handed out, m.protocolName = workerProtocol := by
  induction h with
  | refl | reorder | require | renew | delete => exact nofun
  | purge h =>
    rw [purgeWorkers_outputs h]
    exact nofun
  | handOver h =>
    obtain ⟨s, -, hd⟩ := handOver_eq_ok h
    exact dispatch_protocol hd
  | waiting _ _ h =>
    obtain ⟨s, -, hd⟩ := workerWaiting_eq_ok h
    exact dispatch_protocol hd
  | trans _ _ ih ih' =>
    intro m hm
    rw [handed_append] at hm
    rcases mem_append.mp hm with hm | hm
    · exact ih m hm
    · exact ih' m hm

/-! ## Names of workers -/

/-- Every worker is registered under its own service. -/
def Named (svcOf : Bytes → Bytes) (p : Pool) : Prop :=
  ∀ ⦃id w⦄, p.workers.lookup id = some w → w.serviceName = svcOf id

variable {svcOf : Bytes → Bytes}

theorem Named.renew (hn : Named svcOf p) {w : Worker} (hw : p.workers.lookup w.id = some w)
    (cfg : Config) (now : Int) : Named svcOf (p.setWorker (w.renew cfg now)) := by
  intro id w' h
  rw [lookup_setWorker] at h
  split_ifs at h with hid
  · cases h
    have hname : w.serviceName = svcOf w.id := hn hw
    rw [hid]
    exact hname
  · exact hn h

theorem dispatch_named (hs : Sound roles p) (hn : Named svcOf p)
    (h : dispatch now p name = .ok (p', out)) : Named svcOf p' := by
  obtain ⟨_, s, _, _, hpurged, -, -, rfl⟩ := dispatch_eq_ok hs h
  exact fun id w hw => hn (hpurged.workers.mp hw).1

theorem Change.named (h : Change cfg Q p put p' out) (hs : Sound cfg.roles p) (hn : Named svcOf p) :
    Named svcOf p' := by
  induction h with
  | refl => exact hn
  | reorder hwkrs _ _ => exact fun id w hw => hn ((AList.perm_lookup hwkrs).trans hw)
  | purge h => exact fun id w hw => hn ((purgeWorkers_eq_ok hs h).workers.mp hw).1
  | handOver h =>
    obtain ⟨s, hsvc, hd⟩ := handOver_eq_ok h
    exact dispatch_named (hs.put hsvc _) hn hd
  | require => exact hn
  | renew hw now => exact hn.renew hw cfg now
  | waiting hw _ h =>
    obtain ⟨s, hsvc, hd⟩ := workerWaiting_eq_ok h
    exact dispatch_named (hs.push hw hsvc cfg _) (hn.renew hw cfg _) hd
  | @delete p w hw =>
    intro id w' h
    rw [(deleteWorker_workers p w).1] at h
    exact hn (lookup_of_lookup_erase h)
  | trans h _ ih ih' => exact ih' (h.sound hs) (ih hs hn)

end Pool

/-! ## The broker -/

namespace Broker

variable {P : RequestKey → Bool} {cfg : Config} {b b' : Broker} {out : List Output}

/-- The handler for access rights changes nothing but the token. -/
def KeepsRequests (cfg : Config) : Prop :=
  ∀ m, ∃ rbac, applyRbacHandler cfg m = { m with rbac }

theorem KeepsRequests.key (h : KeepsRequests cfg) (m : BrokerMessage) :
    (applyRbacHandler cfg m).key = m.key := by
  obtain ⟨_, hm⟩ := h m
  rw [hm]
  rfl

/-- The request that an event brings: all that a client sends is one, unless
it is for its subscriptions or from another broker. -/
def requested : Event → Option BrokerMessage
  | .message _ _ message =>
    if message.protocolName = clientProtocol ∧
        message.command ∉ [.ready, .subscribe, .unsubscribe] then some message
    else none
  | .restMessage message =>
    if message.command = .get ∨ message.command = .set then some (fromRest message) else none
  | _ => none

theorem handedCount_eq_zero (h : ∀ o ∈ out, o.kind ≠ .request) : handedCount P out = 0 := by
  rw [handedCount, ← handed_requestsOf, requestsOf_eq_nil h]
  rfl

theorem handedCount_sendReply {origin : Origin} {id : Bytes} {socket : Option Socket}
    {message : BrokerMessage} (h : sendReply cfg origin id socket message = .ok out) :
    handedCount P out = 0 := by
  rw [handedCount, ← handed_requestsOf, requestsOf_sendReply h]
  rfl

theorem popRequest_queued {id : Bytes} {client : Client} {request : BrokerMessage}
    {requests : List BrokerMessage} (hcl : b.clients.lookup id = some client)
    (hreqs : client.requests = request :: requests) :
    (b.popRequest id client requests).queued P + (if P request.key then 1 else 0) = b.queued P := by
  have htotal := total_insert b.clients id { client with requests }
    fun client => client.requests.countP fun m => P m.key
  rw [hcl, elim_some, hreqs, countP_cons] at htotal
  dsimp only [Broker.queued, popRequest] at htotal ⊢
  omega

theorem queueRequest_queued (b : Broker) (message : BrokerMessage) {newClient : Client}
    (hnew : newClient.requests = []) :
    (b.queueRequest message newClient).queued P = b.queued P + if P message.key then 1 else 0 := by
  have htotal := total_insert b.clients message.sourceId
    (let client := (b.clients.lookup message.sourceId).getD newClient
     { client with requests := client.requests ++ [message] })
    fun client => client.requests.countP fun m => P m.key
  dsimp only [Broker.queued, queueRequest]
  cases hlook : b.clients.lookup message.sourceId with
  | none =>
    rw [hlook] at htotal
    simp only [elim_none, getD_none, hnew, nil_append, countP_singleton] at htotal ⊢
    omega
  | some client =>
    rw [hlook] at htotal
    simp only [elim_some, getD_some, countP_append, countP_singleton] at htotal ⊢
    omega

theorem ClientsProcessed.queued {clock : Clock} (hrbac : KeepsRequests cfg)
    (h : ClientsProcessed cfg clock b b' out) :
    b.pool.Sound cfg.roles → b'.queued P + handedCount P out ≤ b.queued P := by
  induction h with
  | done => exact fun _ => le_rfl
  | unknown hcl hreqs hsent _ ih =>
    intro hs
    have hpop := popRequest_queued (P := P) hcl hreqs
    have hrest := ih hs
    rw [Pool.handedCount_append, handedCount_sendReply hsent]
    omega
  | @served b b' id name client request requests out hcl hreqs hserved =>
    intro hs
    have hpop := popRequest_queued (P := P) hcl hreqs
    rcases serveRequest_eq_ok hserved with ⟨_, _, -, hsent, rfl⟩ | ⟨_, hpool, rfl⟩
    · rw [handedCount_sendReply hsent]
      omega
    · have hch := (Pool.Change.handOver (Q := fun _ _ => True) hpool).queued (P := P) hs
      rw [countP_singleton, hrbac.key] at hch
      dsimp only [Broker.queued, popRequest] at hpop hch ⊢
      omega

/-- A step moves requests on, or drops them; it adds the one the event brings. -/
theorem step_conserves {e : Event} (hrbac : KeepsRequests cfg) (hs : b.pool.Sound cfg.roles)
    (h : step cfg b e = .ok (b', out)) : b'.queued P + handedCount P out ≤
      b.queued P + (requested e).toList.countP fun m => P m.key := by
  replace h := step_eq_ok h
  have hnone : (∀ o ∈ out, o.kind = .other) → handedCount P out = 0 := fun hout =>
    handedCount_eq_zero fun o ho => by rw [hout o ho]; nofun
  cases h with
  | @worker clock socket message b' out hprot h =>
    have hch := (h.change (Q := fun _ _ => True) hs hprot fun _ => trivial).queued (P := P)
      (hs.emplace ..)
    have hcls := h.frame.2
    have hsame : (sender cfg clock socket b message).1.queued P = b.pool.queued P := by
      rw [Pool.queued, Pool.queued, sender, Pool.emplaceWorker_services]
    rw [handedCount, handed_requestsOf, hsame] at hch
    dsimp only [Broker.queued] at hcls ⊢
    rw [hcls, handedCount]
    rw [countP_nil] at hch
    omega
  | @queued clock socket message expiry dns out hprot hcmd hout =>
    have hrequested : requested (.message clock socket message) = some message :=
      if_pos ⟨hprot, hcmd⟩
    rw [queueRequest_queued { b with dns } message rfl, hnone hout, hrequested]
    simp [Broker.queued]
  | @restQueued message _ hcmd =>
    have hrequested : requested (.restMessage message) = some (fromRest message) :=
      if_pos hcmd
    rw [queueRequest_queued b (fromRest message) rfl, hrequested]
    simp [handedCount, handed]
  | clients h => exact (h.queued hrbac hs).trans (le_add_right _ _)
  | purgeWorkers h =>
    have hpool := Pool.purgeWorkers_queued (P := P) h
    dsimp only [Broker.queued]
    rw [hpool]
    exact le_add_right _ _
  | purgeClients now =>
    have hle : (b.purgeClients cfg now).queued P ≤ b.queued P := by
      unfold purgeClients
      split_ifs
      · exact le_rfl
      · dsimp only [Broker.queued]
        exact Nat.add_le_add_right (total_eraseIf_le b.clients _ _) _
    exact hle.trans (le_add_right _ _)
  | cleanup h =>
    obtain ⟨-, hcls, hout⟩ := cleanup_frame h
    have hpool := (cleanup_change (Q := fun _ _ => True) hs h).queued (P := P) hs
    rw [hnone hout]
    dsimp only [Broker.queued] at hpool ⊢
    rw [hcls]
    rw [countP_nil] at hpool
    omega
  | rehash h =>
    obtain ⟨-, -, hcls, -, hsvcs, -, -⟩ := h
    dsimp only [Broker.queued]
    rw [total_perm hcls, Pool.queued, Pool.queued, total_perm hsvcs]
    exact le_add_right _ _
  | other _ hpool hcls hout =>
    rw [hnone hout]
    dsimp only [Broker.queued]
    rw [hpool, hcls]
    exact le_add_right _ _

/-! ### Replies of the broker itself -/

/-- What is queued for a client is what the client sent. -/
def ClientsOk (sent : BrokerMessage → Prop) (b : Broker) : Prop :=
  ∀ ⦃id client⦄, b.clients.lookup id = some client →
    client.id = id ∧ ∀ m ∈ client.requests, m.sourceId = id ∧ sent m

/-- The output is no reply, or one of the broker itself to a request that the
client sent. -/
def ReplyOk (sent : BrokerMessage → Prop) (o : Output) : Prop :=
  ∀ ⦃origin c socket m⦄, o = .reply origin c socket m → (∀ w, origin ≠ .worker w) ∧
    m.sourceId = c ∧
      ∃ request, sent request ∧ request.sourceId = c ∧ request.clientRequestID = m.clientRequestID

section
variable {sent : BrokerMessage → Prop}

theorem ReplyOk.of_kind {o : Output} (h : o.kind ≠ .reply) : ReplyOk sent o := by
  rintro _ c _ m rfl
  exact absurd rfl h

theorem ClientsOk.pop (hok : ClientsOk sent b) {id : Bytes} {client : Client}
    {request : BrokerMessage} {requests : List BrokerMessage}
    (hcl : b.clients.lookup id = some client)
    (hreqs : client.requests = request :: requests) :
    ClientsOk sent (b.popRequest id client requests) := by
  intro id' client' h
  have hsub := (hok hcl).2
  rw [hreqs] at hsub
  rw [popRequest, lookup_insert] at h
  split_ifs at h with hid
  · cases h
    rw [hid]
    exact ⟨(hok hcl).1, fun m hm => hsub m (mem_cons_of_mem request hm)⟩
  · exact hok h

variable {message : BrokerMessage}

theorem ClientsOk.queue (hok : ClientsOk sent b) (hsent : sent message)
    {newClient : Client} (hid : newClient.id = message.sourceId)
    (hnew : newClient.requests = []) : ClientsOk sent (b.queueRequest message newClient) := by
  intro id client h
  rw [queueRequest, lookup_insert] at h
  split_ifs at h with hname
  · cases h
    rw [hname]
    cases hlook : b.clients.lookup message.sourceId with
    | none =>
      refine ⟨hid, fun m hm => ?_⟩
      rw [getD_none, hnew, nil_append] at hm
      rw [mem_singleton.mp hm]
      exact ⟨rfl, hsent⟩
    | some client =>
      refine ⟨(hok hlook).1, fun m hm => ?_⟩
      rcases mem_append.mp hm with hm | hm
      · exact (hok hlook).2 m hm
      · rw [mem_singleton.mp hm]
        exact ⟨rfl, hsent⟩
  · exact hok h

theorem sendReply_ok {origin : Origin} {id : Bytes} {socket : Option Socket}
    {request : BrokerMessage} (horigin : ∀ w, origin ≠ .worker w)
    (hid : message.sourceId = id) (hsent : sent request) (hrequest : request.sourceId = id)
    (hreq : request.clientRequestID = message.clientRequestID)
    (h : sendReply cfg origin id socket message = .ok out) : ∀ o ∈ out, ReplyOk sent o := by
  intro o ho
  rcases sendReply_eq_ok h with ⟨-, rfl | rfl⟩ | ⟨_, -, rfl⟩
  · cases ho
  · rw [mem_singleton.mp ho]
    exact .of_kind nofun
  · rw [mem_singleton.mp ho]
    intro origin' c socket₁ m heq
    cases heq
    exact ⟨horigin, hid, request, hsent, hrequest, hreq⟩

/-- The internal services answer the client under the id it gave. -/
theorem handleInternally_keeps {reply : BrokerMessage} {handler : InternalHandler}
    (h : b.handleInternally cfg message handler = .ok reply) :
    reply.sourceId = message.sourceId ∧ reply.clientRequestID = message.clientRequestID := by
  cases handler with
  | dns =>
    obtain ⟨_, -, heq⟩ := bind_eq_ok.mp h
    cases heq
    exact ⟨rfl, rfl⟩
  | echo =>
    cases h
    exact ⟨rfl, rfl⟩
  | service =>
    cases h
    exact ⟨rfl, rfl⟩
  | openapi =>
    dsimp only [handleInternally] at h
    split at h
    · cases h
      exact ⟨rfl, rfl⟩
    · cases h
      exact ⟨rfl, rfl⟩

variable (hrbac : KeepsRequests cfg)
include hrbac

theorem ClientsProcessed.replies {clock : Clock} (h : ClientsProcessed cfg clock b b' out) :
    ClientsOk sent b → ClientsOk sent b' ∧ ∀ o ∈ out, ReplyOk sent o := by
  induction h with
  | done => exact fun hok => ⟨hok, by simp⟩
  | @unknown b b' id client request requests out out' hcl hreqs hsent _ ih =>
    intro hok
    obtain ⟨hok', hout'⟩ := ih (hok.pop hcl hreqs)
    obtain ⟨hid, hqueue⟩ := hok hcl
    obtain ⟨hsource, hreq⟩ := hqueue request (hreqs ▸ mem_cons_self)
    obtain ⟨rbac, hm⟩ := hrbac request
    have hout := sendReply_ok (by nofun) (by rw [hm, hid]; exact hsource) hreq
      (hsource.trans hid.symm) (by rw [hm]; rfl) hsent
    refine ⟨hok', fun o ho => ?_⟩
    rcases mem_append.mp ho with ho | ho
    · exact hout o ho
    · exact hout' o ho
  | @served b b' id name client request requests out hcl hreqs hserved =>
    intro hok
    obtain ⟨hid, hqueue⟩ := hok hcl
    obtain ⟨hsource, hreq⟩ := hqueue request (hreqs ▸ mem_cons_self)
    obtain ⟨rbac, hm⟩ := hrbac request
    rcases serveRequest_eq_ok hserved with ⟨handler, _, hreply, hsent, rfl⟩ | ⟨_, hpool, rfl⟩
    · obtain ⟨hreplySource, hreplyId⟩ := handleInternally_keeps hreply
      rw [hm] at hreplySource hreplyId
      refine ⟨hok.pop hcl hreqs, sendReply_ok (by nofun) ?_ hreq (hsource.trans hid.symm)
        hreplyId.symm hsent⟩
      rw [hreplySource, hid]
      exact hsource
    · refine ⟨hok.pop hcl hreqs, fun o ho => .of_kind ?_⟩
      rw [Pool.handOver_outputs hpool o ho]
      nofun

theorem clientsOk_step {e : Event} (hok : ClientsOk sent b)
    (hsent : ∀ m ∈ requested e, sent m) (h : step cfg b e = .ok (b', out)) : ClientsOk sent b' := by
  replace h := step_eq_ok h
  cases h with
  | worker _ h =>
    intro id client hcl
    rw [h.frame.2] at hcl
    exact hok hcl
  | queued hprot hcmd =>
    have hok' : ClientsOk sent { b with dns := _ } := hok
    exact hok'.queue (hsent _ (if_pos ⟨hprot, hcmd⟩)) rfl rfl
  | restQueued _ hcmd => exact hok.queue (hsent _ (if_pos hcmd)) rfl rfl
  | clients h => exact (h.replies hrbac hok).1
  | purgeWorkers => exact hok
  | purgeClients now =>
    unfold purgeClients
    split_ifs
    · exact hok
    · exact fun id client hcl => hok (lookup_eraseIf.mp hcl).1
  | cleanup h =>
    intro id client hcl
    rw [(cleanup_frame h).2.1] at hcl
    exact hok hcl
  | rehash h =>
    obtain ⟨-, -, hcls, -⟩ := h
    exact fun id client hcl => hok ((AList.perm_lookup hcls).trans hcl)
  | other _ _ hcls => exact fun id client hcl => hok (hcls ▸ hcl)

/-- Without a reply of a worker the broker sends its own only. -/
theorem step_replies {e : Event} (hok : ClientsOk sent b)
    (hwkr : ∀ {clock socket message}, e = .message clock socket message →
      message.protocolName ≠ clientProtocol →
      message.command ≠ .partial_ ∧ message.command ≠ .final)
    (h : step cfg b e = .ok (b', out)) : ∀ o ∈ out, ReplyOk sent o := by
  replace h := step_eq_ok h
  have hother : (∀ o ∈ out, o.kind = .other) → ∀ o ∈ out, ReplyOk sent o := fun hout o ho =>
    .of_kind (by rw [hout o ho]; nofun)
  cases h with
  | worker hprot h =>
    obtain ⟨hfirst, hfinal⟩ := hwkr rfl hprot
    intro o ho
    refine .of_kind ?_
    cases h with
    | ready _ h =>
      obtain ⟨_, _, _, _, hpool, -, rfl, hothers⟩ := workerReady_eq_ok h
      rcases mem_append.mp ho with ho | ho
      · rw [Pool.workerWaiting_outputs hpool o ho]
        nofun
      · rw [hothers o ho]
        nofun
    | reply hcmd => exact absurd hcmd (not_or.mpr ⟨hfirst, hfinal⟩)
    | disconnected =>
      rw [mem_singleton.mp ho]
      nofun
    | notify _ hsent =>
      rcases copies_outputs hsent o ho with hk | hk <;> rw [hk] <;> nofun
    | renewed | ignored => cases ho
  | queued _ _ hout => exact hother hout
  | restQueued | purgeWorkers | purgeClients | rehash => exact hother (by simp)
  | clients h => exact (h.replies hrbac hok).2
  | cleanup h => exact hother (cleanup_frame h).2.2
  | other _ _ _ hout => exact hother hout

omit hrbac

end

/-! ### Replies of workers -/

section
variable {svcOf : Bytes → Bytes} {clock : Clock} {socket : Socket} {message : BrokerMessage}

/-- A FINAL makes one reply at most: to the client in its service frame, with
the name of the worker's service. -/
theorem final_replies (hs : b.pool.Sound cfg.roles) (hn : b.pool.Named svcOf)
    (hprot : message.protocolName ≠ clientProtocol) (hcmd : message.command = .final)
    (h : step cfg b (.message clock socket message) = .ok (b', out)) :
    (∀ o ∈ out, o.kind ≠ .reply) ∨ ∃ socket' reply rest,
      out = .reply (.worker message.sourceId) message.serviceName socket' reply :: rest ∧
      reply.sourceId = message.serviceName ∧ reply.clientRequestID = message.clientRequestID ∧
      reply.serviceName = svcOf message.sourceId ∧ ∀ o ∈ rest, o.kind ≠ .reply := by
  have hprocess : b.processWorker cfg clock socket message = .ok (b', out) := by
    simpa only [step, receiveMessage, if_neg hprot] using h
  cases processWorker_eq_ok hprocess with
  | ready hready => rw [hcmd] at hready; cases hready
  | reply _ hknown h =>
    obtain ⟨w, hw⟩ := isSome_iff_exists.mp (AList.lookup_isSome.mpr hknown)
    have hsender : sender cfg clock socket b message = (b.pool, w) := by
      rw [sender, Pool.emplaceWorker, hw]
    rw [hsender] at h
    rcases workerReply_eq_ok h with ⟨-, -, rfl⟩ | ⟨_, _, _, requests, -, hsent, hpool, -, rfl⟩
    · exact Or.inl (by simp)
    · have hreqs : ∀ o ∈ requests, o.kind ≠ .reply := fun o ho => by
        rw [Pool.workerWaiting_outputs hpool o ho]
        decide
      rcases sendReply_eq_ok hsent with ⟨-, rfl | rfl⟩ | ⟨socket', -, rfl⟩
      · exact Or.inl hreqs
      · refine Or.inl fun o ho => ?_
        rcases mem_cons.mp ho with rfl | ho
        · rintro ⟨⟩
        · exact hreqs o ho
      · rw [hs.keyed.id_eq hw]
        exact Or.inr ⟨socket', toClient message w, requests, rfl, rfl, rfl, hn hw, hreqs⟩
  | disconnected =>
    refine Or.inl fun o ho => ?_
    rw [mem_singleton.mp ho]
    rintro ⟨⟩
  | notify hnotify => rw [hcmd] at hnotify; cases hnotify
  | renewed => exact Or.inl (by simp)
  | ignored => exact Or.inl (by simp)

/-- Workers that register under their own service, or answer, stay named. -/
theorem named_step {e : Event} (hs : b.pool.Sound cfg.roles) (hn : b.pool.Named svcOf)
    (hwkr : ∀ {clock socket message}, e = .message clock socket message →
      message.protocolName ≠ clientProtocol →
      message.command = .final ∨ message.serviceName = svcOf message.sourceId)
    (h : step cfg b e = .ok (b', out)) : b'.pool.Named svcOf := by
  obtain ⟨_, hch⟩ := step_change (Q := fun _ _ => True) hs (fun _ _ => trivial) h
  have hs₁ := (entered_keeps hs e).1
  by_cases hentered : (entered cfg b e).Named svcOf
  · exact hch.named hs₁ hentered
  · -- only the sender of a FINAL that is not known is entered under another name
    have hfrom : e.fromWorker = true := by
      by_contra hnot
      rw [entered_eq (Bool.eq_false_iff.mpr hnot)] at hentered
      exact hentered hn
    cases e with
    | message clock socket message =>
      have hprot : message.protocolName ≠ clientProtocol := of_decide_eq_true hfrom
      rw [entered, if_neg hprot] at hentered
      have hprocess : b.processWorker cfg clock socket message = .ok (b', out) := by
        simpa only [step, receiveMessage, if_neg hprot] using h
      have hunk : b.pool.workers.lookup message.sourceId = none := by
        cases hlook : b.pool.workers.lookup message.sourceId with
        | none => rfl
        | some w =>
          rw [sender, Pool.emplaceWorker, hlook] at hentered
          exact absurd hn hentered
      have hnew : ∀ {id w}, (sender cfg clock socket b message).1.workers.lookup id = some w →
          id ≠ message.sourceId → b.pool.workers.lookup id = some w := by
        intro id w hw hne
        rw [sender, Pool.emplaceWorker, hunk] at hw
        exact ((Pool.lookup_setWorker ..).trans (if_neg hne)).symm.trans hw
      have hfinal : message.command = .final := by
        refine (hwkr rfl hprot).resolve_right fun hname => hentered fun id w hw => ?_
        by_cases hid : id = message.sourceId
        · rw [sender, Pool.emplaceWorker, hunk] at hw
          obtain rfl := some.inj
            (((Pool.lookup_setWorker ..).trans (if_pos hid)).symm.trans hw)
          rw [hid]
          exact hname
        · exact hn (hnew hw hid)
      cases processWorker_eq_ok hprocess with
      | ready hready => rw [hfinal] at hready; cases hready
      | reply _ hknown => exact absurd hknown (AList.lookup_eq_none.mp hunk)
      | disconnected =>
        intro id w hw
        have hid := (Pool.emplaceWorker_lookup hs.keyed cfg clock socket message.sourceId
          message.serviceName).1
        have herased : ((sender cfg clock socket b message).1.workers.erase
            message.sourceId).lookup id = some w := by
          have hwkrs := (Pool.deleteWorker_workers (sender cfg clock socket b message).1
            (sender cfg clock socket b message).2).1
          rw [← hid]
          exact hwkrs ▸ hw
        rw [lookup_erase] at herased
        split_ifs at herased with hne
        exact hn (hnew herased hne)
      | notify hnotify => rw [hfinal] at hnotify; cases hnotify
      | renewed hheartbeat => rw [hfinal] at hheartbeat; cases hheartbeat
      | ignored hignored => simp [hfinal] at hignored
    | pubMessage | restMessage | processClients | purgeWorkers | purgeClients | sendHeartbeats
    | purgeDnsServices | addDnsAddress | run | cleanup | rehash => cases hfrom

end

end Broker

/-! ## The broker and its workers -/

/-- `BasicWorker::replyFromRequest`. -/
def replyFromRequest (request : BrokerMessage) : BrokerMessage :=
  { protocolName := request.protocolName
    command := .final
    serviceName := request.serviceName
    clientRequestID := request.clientRequestID
    topic := request.topic
    rbac := request.rbac }

/-- The reply as the broker receives it: filled in by the worker's handler,
and with the worker's id from the socket. -/
def workerAnswer (request : BrokerMessage) (topic : Uri .strict) (data error rbac : Bytes) :
    BrokerMessage :=
  { replyFromRequest request with sourceId := request.sourceId, topic, data, error, rbac }

/-- The commands that a worker answers. -/
def isRequest (command : Command) : Bool := command = .get ∨ command = .set

/-- The requests that workers receive. -/
def received (out : List Output) : List BrokerMessage :=
  (handed out).filter fun m => isRequest m.command

/-- The broker, and the requests that workers have received and not answered. -/
structure System where
  broker : Broker
  inFlight : List BrokerMessage

inductive SystemEvent where
  | broker (event : Event)
  | answer (clock : Clock) (socket : Socket) (request : BrokerMessage) (topic : Uri .strict)
      (data error rbac : Bytes)

/-- What the broker sees of an event. -/
def SystemEvent.event : SystemEvent → Event
  | .broker event => event
  | .answer clock socket request topic data error rbac =>
    .message clock socket (workerAnswer request topic data error rbac)

/-- The request that an event brings. -/
def SystemEvent.requested : SystemEvent → Option BrokerMessage
  | .broker event => Broker.requested event
  | .answer .. => none

namespace System

/-- What stays in flight: a worker answers only what it has received, and
nothing twice. -/
def unanswered (s : System) : SystemEvent → Option (List BrokerMessage)
  | .broker _ => some s.inFlight
  | .answer _ _ request .. =>
    if request ∈ s.inFlight then some (s.inFlight.erase request) else none

def step (cfg : Config) : StepFn System SystemEvent Output := fun s e =>
  (s.unanswered e).bind fun inFlight =>
    (machine cfg s.broker e.event).map fun r => (⟨r.1, inFlight ++ received r.2⟩, r.2)

def start (cfg : Config) (now : Int) : System := ⟨initial cfg now, []⟩

end System

/-- Workers send no PARTIAL and no FINAL but their answers, and everything
else under the name of their own service. -/
def RoutingOk (svcOf : Bytes → Bytes) (_ : System) : SystemEvent → Prop
  | .broker (.message _ _ message) => message.protocolName ≠ clientProtocol →
    message.command ≠ .partial_ ∧ message.command ≠ .final ∧
      message.serviceName = svcOf message.sourceId
  | _ => True

instance (svcOf : Bytes → Bytes) (s : System) : (e : SystemEvent) → Decidable (RoutingOk svcOf s e)
  | .broker (.message _ _ _) => inferInstanceAs (Decidable (_ → _ ∧ _ ∧ _))
  | .broker (.pubMessage _) | .broker (.restMessage _) | .broker (.processClients _)
  | .broker (.purgeWorkers _) | .broker (.purgeClients _) | .broker (.sendHeartbeats _ _)
  | .broker (.purgeDnsServices _ _) | .broker (.addDnsAddress _ _ _) | .broker (.run _)
  | .broker .cleanup | .broker (.rehash _) | .answer .. => inferInstanceAs (Decidable True)

/-! ## What a run has done -/

abbrev Trace := List (SystemEvent × List Output)

variable (trace : Trace)

/-- The requests that were sent. -/
def requests : List BrokerMessage := trace.filterMap fun x => x.1.requested

def outputs : List Output := trace.flatMap (·.2)

variable (w c rid : Bytes)

/-- The request came from client `c`, who gave it the id `rid`, to worker `w`. -/
def isFor (m : BrokerMessage) : Bool :=
  m.sourceId = w ∧ m.serviceName = c ∧ m.clientRequestID = rid

/-- A reply of worker `w` to the request of client `c` with the id `rid`. -/
def Output.isReplyTo : Output → Bool
  | .reply (.worker w') c' _ m => w' = w ∧ c' = c ∧ m.clientRequestID = rid
  | _ => false

/-- How often worker `w` was handed a request with the id `rid` of client `c`. -/
def handedTo (out : List Output) : Nat := (received out).countP (isFor w c rid)

/-- How often client `c` got a reply of worker `w` under the id `rid`. -/
def repliesTo (out : List Output) : Nat :=
  out.countP (Output.isReplyTo w c rid)

/-- The GETs and SETs of client `c` with the id `rid`. -/
def ofClient (c rid : Bytes) (key : RequestKey) : Bool :=
  key.client = c ∧ key.clientRequestID = rid ∧ isRequest key.command

theorem requests_snoc (e : SystemEvent) (out : List Output) :
    requests (trace ++ [(e, out)]) = requests trace ++ e.requested.toList := by
  rw [requests, filterMap_append, filterMap_cons, filterMap_nil]
  cases e.requested with
  | none => rfl
  | some m => rfl

theorem outputs_snoc (e : SystemEvent) (out : List Output) :
    outputs (trace ++ [(e, out)]) = outputs trace ++ out := by
  rw [outputs, flatMap_append, flatMap_singleton]
  rfl

theorem received_append (out out' : List Output) :
    received (out ++ out') = received out ++ received out' := by
  rw [received, handed_append, filter_append]
  rfl

theorem repliesTo_eq_zero {w c rid : Bytes} {out : List Output}
    (h : ∀ o ∈ out, ∀ c' socket m, o ≠ .reply (.worker w) c' socket m) :
    repliesTo w c rid out = 0 := by
  refine countP_eq_zero.mpr fun o ho hto => ?_
  cases o with
  | reply origin c' socket m =>
    cases origin with
    | worker w' =>
      have hw : w' = w := (of_decide_eq_true hto).1
      exact h _ ho c' socket m (by rw [hw])
    | internal | unknownService => cases hto
  | request | restResponse | publication | notification | restNotification | serviceNames
  | disconnect | heartbeat | dnsChallenge | dnsReady | subSocket => cases hto

/-- A worker is handed no more requests of a client than all workers are. -/
theorem handedTo_le (w c rid : Bytes) (out : List Output) :
    handedTo w c rid out ≤ handedCount (ofClient c rid) out := by
  rw [handedTo, received, countP_filter, handedCount]
  refine countP_mono_left fun m _ hm => ?_
  obtain ⟨hfor, hreq⟩ := Bool.and_eq_true_iff.mp hm
  obtain ⟨-, hcl, hid⟩ := of_decide_eq_true hfor
  exact decide_eq_true ⟨hcl, hid, hreq⟩

/-! ## Routing -/

/-- What holds in every state of a run. -/
structure Routed (cfg : Config) (svcOf : Bytes → Bytes) (trace : Trace) (s : System) : Prop where
  sound : s.broker.pool.Sound cfg.roles
  named : s.broker.pool.Named svcOf
  clients : ClientsOk (· ∈ requests trace) s.broker
  conserved : ∀ P, s.broker.queued P + handedCount P (outputs trace) ≤
    (requests trace).countP fun m => P m.key
  inFlight : ∀ m ∈ s.inFlight, m.protocolName = workerProtocol
  answered : ∀ w c rid, repliesTo w c rid (outputs trace) + s.inFlight.countP (isFor w c rid) ≤
    handedTo w c rid (outputs trace)

section
variable {cfg : Config} {svcOf : Bytes → Bytes} {trace : Trace} {s s' : System} {e : SystemEvent}
  {out : List Output}

theorem System.step_eq_some (h : System.step cfg s e = some (s', out)) :
    ∃ inFlight, s.unanswered e = some inFlight ∧
      Broker.step cfg s.broker e.event = .ok (s'.broker, out) ∧
      s'.inFlight = inFlight ++ received out := by
  obtain ⟨inFlight, htaken, h⟩ := bind_eq_some_iff.mp h
  obtain ⟨⟨_, _⟩, hstep, heq⟩ := map_eq_some_iff.mp h
  cases heq
  exact ⟨inFlight, htaken, machine_eq_some.mp hstep, rfl⟩

variable {socket : Socket} {request : BrokerMessage}

theorem System.unanswered_answer {inFlight : List BrokerMessage} {clock : Clock} {topic : Uri .strict} {data error rbac : Bytes}
    (h : s.unanswered (.answer clock socket request topic data error rbac) = some inFlight) :
    request ∈ s.inFlight ∧ s.inFlight.erase request = inFlight := by
  obtain ⟨hmem, heq⟩ := ite_none_right_eq_some.mp h
  exact ⟨hmem, some.inj heq⟩

/-- A worker's message that is no answer is no reply. -/
theorem RoutingOk.no_reply {event : Event} (hok : RoutingOk svcOf s (.broker event)) {clock : Clock} {message : BrokerMessage} (he : event = .message clock socket message)
    (hprot : message.protocolName ≠ clientProtocol) :
    message.command ≠ .partial_ ∧ message.command ≠ .final := by
  subst he
  obtain ⟨hfirst, hfinal, -⟩ := hok hprot
  exact ⟨hfirst, hfinal⟩

/-- What is received is in the workers' protocol. -/
theorem received_protocol (hs : s.broker.pool.Sound cfg.roles)
    (h : Broker.step cfg s.broker e.event = .ok (s'.broker, out)) :
    ∀ m ∈ received out, m.protocolName = workerProtocol := by
  obtain ⟨_, hch⟩ := step_change (Q := fun _ _ => True) hs (fun _ _ => trivial) h
  intro m hm
  have hhanded : m ∈ handed out := (mem_filter.mp hm).1
  rw [← handed_requestsOf] at hhanded
  exact hch.protocol m hhanded

theorem workerProtocol_ne : workerProtocol ≠ clientProtocol := by decide

variable (h : Routed cfg svcOf trace s)
include h

/-- An answer is a message of a worker. -/
theorem Routed.answer_protocol
    (hmem : request ∈ s.inFlight) (topic : Uri .strict) (data error rbac : Bytes) :
    (workerAnswer request topic data error rbac).protocolName ≠ clientProtocol := by
  intro hprot
  exact workerProtocol_ne ((h.inFlight request hmem).symm.trans hprot)

theorem Routed.requested_eq {inFlight : List BrokerMessage}
    (htaken : s.unanswered e = some inFlight) : Broker.requested e.event = e.requested := by
  cases e with
  | broker event => rfl
  | answer clock socket request topic data error rbac =>
    obtain ⟨hmem, -⟩ := System.unanswered_answer htaken
    exact if_neg fun hcl => h.answer_protocol hmem topic data error rbac hcl.1

/-- What is in flight was sent by its client. -/
theorem Routed.sent (hmem : request ∈ s.inFlight) :
    ∃ sent ∈ requests trace, sent.sourceId = request.serviceName ∧
      sent.clientRequestID = request.clientRequestID ∧ isRequest sent.command = true := by
  have hflight : 0 < s.inFlight.countP
      (isFor request.sourceId request.serviceName request.clientRequestID) :=
    countP_pos_iff.mpr ⟨request, hmem, decide_eq_true ⟨rfl, rfl, rfl⟩⟩
  have hanswered := h.answered request.sourceId request.serviceName request.clientRequestID
  have hhanded := handedTo_le request.sourceId request.serviceName request.clientRequestID
    (outputs trace)
  have hconserved := h.conserved (ofClient request.serviceName request.clientRequestID)
  have hpos : 0 < (requests trace).countP fun m =>
      ofClient request.serviceName request.clientRequestID m.key := by omega
  obtain ⟨sent, hsent, hof⟩ := countP_pos_iff.mp hpos
  obtain ⟨hcl, hid, hcmd⟩ := of_decide_eq_true hof
  exact ⟨sent, hsent, hcl, hid, hcmd⟩

omit h

variable (hrbac : KeepsRequests cfg)
include hrbac

include h

/-- The replies of one step. -/
theorem Routed.replies (hok : RoutingOk svcOf s e) (hstep : System.step cfg s e = some (s', out))
    {origin : Origin} {c : Bytes} {m : BrokerMessage} (hreply : .reply origin c socket m ∈ out) :
    m.sourceId = c ∧ ∃ request ∈ requests trace, request.sourceId = c ∧
      request.clientRequestID = m.clientRequestID ∧
      ∀ w, origin = .worker w → isRequest request.command = true ∧ m.serviceName = svcOf w := by
  obtain ⟨_, htaken, hbroker, -⟩ := System.step_eq_some hstep
  cases e with
  | broker event =>
    obtain ⟨horigin, hsource, request, hsent, hreq, hid⟩ :=
      step_replies hrbac h.clients hok.no_reply hbroker _ hreply rfl
    exact ⟨hsource, request, hsent, hreq, hid, fun w hw => absurd hw (horigin w)⟩
  | answer clock socket' request topic data error rbac =>
    obtain ⟨hmem, -⟩ := System.unanswered_answer htaken
    have hprot := h.answer_protocol hmem topic data error rbac
    rcases final_replies h.sound h.named hprot rfl hbroker with
      hnone | ⟨socket₁, reply, rest, rfl, hsource, hid, hname, hrest⟩
    · exact absurd rfl (hnone _ hreply)
    · rcases mem_cons.mp hreply with heq | hmem'
      · cases heq
        obtain ⟨sent, hsent, hcl, hsentId, hcmd⟩ := h.sent hmem
        refine ⟨hsource, sent, hsent, hcl, hsentId.trans hid.symm, fun w hw => ?_⟩
        cases hw
        exact ⟨hcmd, hname⟩
      · exact absurd rfl (hrest _ hmem')

/-- A step sends no more replies than it takes requests out of flight. -/
theorem Routed.repliesTo_le
    (hok : RoutingOk svcOf s e) (hstep : System.step cfg s e = some (s', out)) (w c rid : Bytes) :
    repliesTo w c rid out + s'.inFlight.countP (isFor w c rid) ≤
      s.inFlight.countP (isFor w c rid) + handedTo w c rid out := by
  obtain ⟨inFlight, htaken, hbroker, hflight⟩ := System.step_eq_some hstep
  rw [hflight, countP_append]
  cases e with
  | broker event =>
    obtain rfl : s.inFlight = inFlight := some.inj htaken
    have hzero : repliesTo w c rid out = 0 := by
      refine repliesTo_eq_zero fun o ho c' socket m heq => ?_
      exact (step_replies hrbac h.clients hok.no_reply hbroker o ho heq).1 w rfl
    rw [hzero, handedTo]
    omega
  | answer clock socket' request topic data error rbac =>
    obtain ⟨hmem, rfl⟩ := System.unanswered_answer htaken
    have hprot := h.answer_protocol hmem topic data error rbac
    have hperm := (perm_cons_erase hmem).countP_eq (isFor w c rid)
    rw [countP_cons] at hperm
    have hone : repliesTo w c rid out ≤ if isFor w c rid request then 1 else 0 := by
      rcases final_replies h.sound h.named hprot rfl hbroker with
        hnone | ⟨socket₁, reply, rest, rfl, -, hid, -, hrest⟩
      · rw [repliesTo_eq_zero fun o ho c' socket m heq => hnone o ho (by rw [heq]; rfl)]
        exact zero_le _
      · have hzero : repliesTo w c rid rest = 0 :=
          repliesTo_eq_zero fun o ho c' socket m heq => hrest o ho (by rw [heq]; rfl)
        have hcons : repliesTo w c rid (.reply (.worker request.sourceId) request.serviceName
            socket₁ reply :: rest) = repliesTo w c rid rest +
              if isFor w c rid request then 1 else 0 := by
          have hkey : Output.isReplyTo w c rid (.reply (.worker request.sourceId)
              request.serviceName socket₁ reply) = isFor w c rid request := by
            rw [Output.isReplyTo, hid]
            rfl
          rw [repliesTo, countP_cons, hkey]
          rfl
        exact (hcons.trans (by rw [hzero, zero_add])).le
    rw [handedTo]
    omega

theorem Routed.step (hok : RoutingOk svcOf s e) (hstep : System.step cfg s e = some (s', out)) :
    Routed cfg svcOf (trace ++ [(e, out)]) s' := by
  obtain ⟨inFlight, htaken, hbroker, hflight⟩ := System.step_eq_some hstep
  obtain ⟨_, hch⟩ := step_change (Q := fun _ _ => True) h.sound (fun _ _ => trivial) hbroker
  have hsent : ∀ m ∈ Broker.requested e.event, m ∈ requests (trace ++ [(e, out)]) := by
    intro m hm
    rw [h.requested_eq htaken] at hm
    rw [requests_snoc]
    exact mem_append_right _ (mem_toList.mpr hm)
  have hold : ClientsOk (· ∈ requests (trace ++ [(e, out)])) s.broker := by
    intro id client hcl
    obtain ⟨hid, hqueue⟩ := h.clients hcl
    refine ⟨hid, fun m hm => ⟨(hqueue m hm).1, ?_⟩⟩
    rw [requests_snoc]
    exact mem_append_left _ (hqueue m hm).2
  refine ⟨hch.sound (entered_keeps h.sound e.event).1, ?_, clientsOk_step hrbac hold hsent hbroker,
    fun P => ?_, ?_, fun w c rid => ?_⟩
  · refine named_step h.sound h.named (fun {clock socket message} he hprot => ?_) hbroker
    cases e with
    | broker event =>
      obtain rfl : event = _ := he
      exact Or.inr (hok hprot).2.2
    | answer =>
      cases he
      exact Or.inl rfl
  · have hmoved := step_conserves (P := P) hrbac h.sound hbroker
    have hbef := h.conserved P
    rw [h.requested_eq htaken] at hmoved
    rw [outputs_snoc, Pool.handedCount_append, requests_snoc, countP_append]
    omega
  · intro m hm
    rw [hflight] at hm
    rcases mem_append.mp hm with hm | hm
    · refine h.inFlight m ?_
      cases e with
      | broker event =>
        obtain rfl : s.inFlight = inFlight := some.inj htaken
        exact hm
      | answer clock socket request =>
        obtain ⟨-, rfl⟩ := System.unanswered_answer htaken
        exact mem_of_mem_erase hm
    · exact received_protocol h.sound hbroker m hm
  · have hbef := h.answered w c rid
    have hmoved := h.repliesTo_le hrbac hok hstep w c rid
    rw [outputs_snoc, repliesTo, countP_append, handedTo, received_append, countP_append]
    dsimp only [repliesTo, handedTo] at hbef hmoved
    omega

omit h hrbac

end

theorem routed_start (cfg : Config) (svcOf : Bytes → Bytes) (now : Int) :
    Routed cfg svcOf [] (System.start cfg now) := by
  refine ⟨(sound_initial cfg now).1, nofun, nofun, fun P => ?_, nofun, fun w c rid => le_rfl⟩
  have hnone : (initial cfg now).pool.queued P = 0 := by
    refine sum_eq_zero fun n hn => ?_
    obtain ⟨e, he, rfl⟩ := mem_map.mp hn
    exact Pool.queued_of_empty (initial_services (mem_entries_iff.mp he)).2
  have hqueued : (System.start cfg now).broker.queued P = 0 := by
    dsimp only [Broker.queued, System.start]
    rw [hnone]
    rfl
  rw [hqueued]
  exact le_rfl

/-- The request of client "c1" as the worker receives it. -/
def receivedGet : BrokerMessage :=
  { sourceId := str "worker", protocolName := workerProtocol, command := .get,
    serviceName := str "c1", clientRequestID := str "1" }

/-- The worker's answer to it. -/
def answerEvent : SystemEvent := .answer {} .router receivedGet rootUri (str "value") [] []

end OpenCmw
