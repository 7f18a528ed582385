import OpenCmw.SubscriptionDelivery
import OpenCmw.WorkerPool

/-!
# Workers that wait and workers that are lost

What a step does to the pool is a composition of the pool's operations
(`step_change`), so the addresses in the waiting lists denote workers of
their service in every state the broker reaches (`sound_run`). Two things
are missing from that.

A worker can wait more than once: a second READY, or a PARTIAL before the
FINAL, queues it again (`second_ready_queues_twice`), and when it expires
the first of its addresses is purged together with the worker, which leaves
the second one dangling. `QueuedOnce` is the condition on a message under
which this does not happen: its sender does not wait already, and its
service exists. Under it every worker waits at most once, and no step fails
on a pointer, on a missing service or on the assertion
(`waiting_exact`).

A worker can be lost: its reply to a client that is no longer known is
dropped before the worker is queued again (`reply_to_purged_client_loses_worker`).
`final_keeps_worker_iff` says exactly when a FINAL keeps the worker in
rotation.
-/

namespace OpenCmw

open Broker List Option AList

/-! ## What a step does to the pool -/

namespace Broker

/-- The message makes the broker queue its sender. -/
def Queues (b : Broker) (message : BrokerMessage) : Prop :=
  message.protocolName ≠ clientProtocol ∧
    (message.command = .ready ∨ (message.command = .partial_ ∨ message.command = .final) ∧
        message.sourceId ∈ b.pool.workers ∧ message.serviceName ∈ b.clients)
  deriving Decidable

/-- The pool in which the sender is queued, and the sender. -/
def queuedSender (cfg : Config) (clock : Clock) (socket : Socket) (b : Broker)
    (message : BrokerMessage) : Pool × Worker :=
  let r := sender cfg clock socket b message
  if message.command = .ready then
    (r.1.requireService cfg message.serviceName message.data, r.2)
  else r

variable {cfg : Config} {Q : Pool → Worker → Prop} {b b' : Broker} {out : List Output}

theorem sender_lookup (hs : b.pool.Sound cfg.roles) (clock : Clock) (socket : Socket)
    (message : BrokerMessage) :
    (sender cfg clock socket b message).1.workers.lookup (sender cfg clock socket b message).2.id =
      some (sender cfg clock socket b message).2 := by
  obtain ⟨hid, hlook⟩ := Pool.emplaceWorker_lookup hs.keyed cfg clock socket message.sourceId
    message.serviceName
  exact hid ▸ hlook

variable {clock : Clock} {e : Event}

theorem WorkerProcessed.change {socket : Socket} {message : BrokerMessage}
    (hs : b.pool.Sound cfg.roles) (hprot : message.protocolName ≠ clientProtocol)
    (hQ : Queues b message → Q (queuedSender cfg clock socket b message).1
      (queuedSender cfg clock socket b message).2)
    (h : WorkerProcessed cfg clock (message.sourceId ∈ b.pool.workers)
      (sender cfg clock socket b message).2 message
      { b with pool := (sender cfg clock socket b message).1 } b' out) :
    Pool.Change cfg Q (sender cfg clock socket b message).1 [] b'.pool (requestsOf out) := by
  have hlook := sender_lookup hs clock socket message
  cases h with
  | ready hcmd h =>
    obtain ⟨pool, _, requests, others, hpool, rfl, rfl, hothers⟩ := workerReady_eq_ok h
    have hready := hQ ⟨hprot, Or.inl hcmd⟩
    rw [queuedSender, if_pos hcmd] at hready
    have hnone : requestsOf others = [] :=
      requestsOf_eq_nil fun o ho => by rw [hothers o ho]; nofun
    rw [requestsOf_append, requestsOf_eq_self (Pool.workerWaiting_outputs hpool), hnone, append_nil]
    exact .trans (.require _ message.serviceName message.data) (.waiting hlook hready hpool)
  | reply hcmd hknown h =>
    rcases workerReply_eq_ok h with
      ⟨-, rfl, rfl⟩ | ⟨client, pool, sent, requests, hcl, hsent, hpool, rfl, rfl⟩
    · exact .refl _
    · have hmem : message.serviceName ∈ b.clients :=
        lookup_isSome.mp (isSome_iff_exists.mpr ⟨client, hcl⟩)
      have hnot : message.command ≠ .ready := by
        rcases hcmd with hcmd | hcmd <;> simp [hcmd]
      have hreply := hQ ⟨hprot, Or.inr ⟨hcmd, hknown, hmem⟩⟩
      rw [queuedSender, if_neg hnot] at hreply
      rw [requestsOf_append, requestsOf_sendReply hsent, nil_append,
        requestsOf_eq_self (Pool.workerWaiting_outputs hpool)]
      exact .waiting hlook hreply hpool
  | disconnected => exact .delete hlook
  | notify _ hsent =>
    have hnone : requestsOf out = [] := by
      refine requestsOf_eq_nil fun o ho => ?_
      rcases copies_outputs hsent o ho with hk | hk <;> rw [hk] <;> nofun
    rw [hnone]
    exact .refl _
  | renewed => exact .renew hlook clock.arrival
  | ignored => exact .refl _

theorem ClientsProcessed.change (h : ClientsProcessed cfg clock b b' out) :
    ∃ put, Pool.Change cfg Q b.pool put b'.pool (requestsOf out) := by
  induction h with
  | done b => exact ⟨_, .refl b.pool⟩
  | unknown _ _ hsent _ ih =>
    rw [requestsOf_append, requestsOf_sendReply hsent]
    exact ih
  | served _ _ hserved =>
    rcases serveRequest_eq_ok hserved with ⟨_, _, -, hsent, rfl⟩ | ⟨_, hpool, rfl⟩
    · rw [requestsOf_sendReply hsent]
      exact ⟨_, .refl _⟩
    · rw [requestsOf_eq_self (Pool.handOver_outputs hpool)]
      exact ⟨_, .handOver hpool⟩

theorem cleanup_change (hs : b.pool.Sound cfg.roles) (h : b.cleanup = .ok (b', out)) :
    Pool.Change cfg Q b.pool [] b'.pool [] := by
  refine forEach_invariant (fun s => Pool.Change cfg Q b.pool [] s.pool []) ?_ h (.refl b.pool)
  intro id s s' out hch hrnd
  unfold cleanupWorker at hrnd
  split at hrnd
  · cases hrnd
    exact hch
  · next w hw =>
    cases hrnd
    have hid := (hch.sound hs).keyed.id_eq hw
    exact hch.trans (.delete (hid ▸ hw))

/-- The pool with the sender of the message entered. -/
def entered (cfg : Config) (b : Broker) : Event → Pool
  | .message clock socket message =>
    if message.protocolName = clientProtocol then b.pool
    else (sender cfg clock socket b message).1
  | _ => b.pool

/-- Entering the sender changes no service. -/
theorem entered_keeps (hs : b.pool.Sound cfg.roles) (e : Event) :
    (entered cfg b e).Sound cfg.roles ∧ (entered cfg b e).services = b.pool.services := by
  cases e with
  | message clock socket message =>
    dsimp only [entered]
    split_ifs
    · exact ⟨hs, rfl⟩
    · exact ⟨hs.emplace .., Pool.emplaceWorker_services ..⟩
  | pubMessage | restMessage | processClients | purgeWorkers | purgeClients | sendHeartbeats
  | purgeDnsServices | addDnsAddress | run | cleanup | rehash => exact ⟨hs, rfl⟩

theorem entered_eq (hwkr : e.fromWorker = false) : entered cfg b e = b.pool := by
  cases e with
  | message clock socket message =>
    exact if_pos (by simpa [Event.fromWorker] using hwkr)
  | pubMessage | restMessage | processClients | purgeWorkers | purgeClients | sendHeartbeats
  | purgeDnsServices | addDnsAddress | run | cleanup | rehash => rfl

theorem step_change (hs : b.pool.Sound cfg.roles)
    (hQ : ∀ {clock socket message}, e = .message clock socket message → Queues b message →
      Q (queuedSender cfg clock socket b message).1 (queuedSender cfg clock socket b message).2)
    (h : step cfg b e = .ok (b', out)) :
    ∃ put, Pool.Change cfg Q (entered cfg b e) put b'.pool (requestsOf out) := by
  replace h := step_eq_ok h
  have hnone : (∀ o ∈ out, o.kind = .other) → requestsOf out = [] := fun hout =>
    requestsOf_eq_nil fun o ho => by rw [hout o ho]; nofun
  cases h with
  | worker hprot h =>
    rw [entered, if_neg hprot]
    exact ⟨[], h.change hs hprot (hQ rfl)⟩
  | queued hprot _ hout =>
    rw [entered, if_pos hprot, hnone hout]
    exact ⟨_, .refl b.pool⟩
  | restQueued => exact ⟨_, .refl b.pool⟩
  | clients h => exact h.change
  | purgeWorkers h => exact ⟨_, .purge h⟩
  | purgeClients now =>
    have hsame : (b.purgeClients cfg now).pool = b.pool := by
      unfold purgeClients
      split_ifs <;> rfl
    rw [hsame]
    exact ⟨_, .refl b.pool⟩
  | cleanup h =>
    rw [hnone (cleanup_frame h).2.2]
    exact ⟨_, cleanup_change hs h⟩
  | rehash h =>
    obtain ⟨-, -, -, hwkrs, hsvcs, hnext, -⟩ := h
    exact ⟨_, .reorder hwkrs hsvcs hnext⟩
  | other hwkr hpool _ hout =>
    rw [entered_eq hwkr, hpool, hnone hout]
    exact ⟨_, .refl b.pool⟩

/-! ## Every run -/

theorem initial_services {cfg : Config} {now : Int} {name : Bytes} {s : Service}
    (h : (initial cfg now).pool.services.lookup name = some s) :
    s.waiting = [] ∧ s.requests = RequestQueue.empty cfg.roles := by
  simp only [initial, foldl_cons, foldl_nil, UMap.lookup_tryEmplace] at h
  split_ifs at h
  all_goals first
    | (obtain rfl := some.inj h; exact ⟨rfl, rfl⟩)
    | cases h

theorem sound_initial (cfg : Config) (now : Int) :
    (initial cfg now).pool.Sound cfg.roles ∧ (initial cfg now).pool.Idle := by
  have hno : ∀ {id w}, (initial cfg now).pool.workers.lookup id ≠ some w := nofun
  refine ⟨⟨⟨fun h => absurd h hno, fun h => absurd h hno⟩, fun h => absurd h hno,
    fun h hmem => ?_, fun h => ?_⟩, fun name s h => Or.inl (initial_services h).1⟩
  · rw [(initial_services h).1] at hmem
    cases hmem
  · rw [(initial_services h).2]
    exact ⟨[], RequestQueue.represents_empty cfg.roles⟩

theorem sound_run {cfg : Config} {now : Int} {ok : Broker → Event → Prop}
    {trace : List (Event × List Output)} {b : Broker}
    (h : Run (machine cfg) ok (initial cfg now) trace b) :
    b.pool.Sound cfg.roles ∧ b.pool.Idle := by
  refine h.invariant (I := fun _ b => b.pool.Sound cfg.roles ∧ b.pool.Idle)
    (sound_initial cfg now) ?_
  rintro trace b e _ _ ⟨hs, hidle⟩ - hstep
  obtain ⟨_, hch⟩ :=
    step_change (Q := fun _ _ => True) hs (fun _ _ => trivial) (machine_eq_some.mp hstep)
  obtain ⟨hs₁, hsvcs⟩ := entered_keeps hs e
  have hidle₁ : (entered cfg b e).Idle := fun name s h => hidle (hsvcs ▸ h)
  exact ⟨hch.sound hs₁, hch.idle hs₁ hidle₁⟩

/-! ## Waiting once -/

/-- A message that queues its sender does not come from a worker that waits
already, or whose service does not exist. -/
def QueuedOnce (b : Broker) : Event → Prop
  | .message _ _ message => Queues b message → ∀ w ∈ b.pool.workers.lookup message.sourceId,
      (w.serviceName ∈ b.pool.services ∨
        message.command = .ready ∧ w.serviceName = message.serviceName) ∧
      ∀ s ∈ b.pool.services.lookup w.serviceName, w.addr ∉ s.waiting
  | _ => True

instance (b : Broker) : (e : Event) → Decidable (QueuedOnce b e)
  | .message _ _ _ => inferInstanceAs (Decidable (_ → ∀ w ∈ _, _ ∧ ∀ s ∈ _, _))
  | .pubMessage _ | .restMessage _ | .processClients _ | .purgeWorkers _ | .purgeClients _
  | .sendHeartbeats _ _ | .purgeDnsServices _ _ | .addDnsAddress _ _ _ | .run _ | .cleanup
  | .rehash _ => inferInstanceAs (Decidable True)

section
variable {clock : Clock} {socket : Socket} {message : BrokerMessage}

/-- Under the condition the sender can be queued. -/
theorem queuedSender_ready (hs : b.pool.Sound cfg.roles)
    (hguard : QueuedOnce b (.message clock socket message)) (hqueues : Queues b message) :
    (queuedSender cfg clock socket b message).2.serviceName ∈
        (queuedSender cfg clock socket b message).1.services ∧
      (queuedSender cfg clock socket b message).1.NotWaiting
        (queuedSender cfg clock socket b message).2 := by
  have hguard := hguard hqueues
  unfold queuedSender sender Pool.emplaceWorker
  cases hlook : b.pool.workers.lookup message.sourceId with
  | some w =>
    obtain ⟨hsvc, hnot⟩ := hguard w hlook
    split_ifs with hready
    · constructor
      · rcases hsvc with hsvc | ⟨-, hname⟩
        · exact Pool.mem_requireService.mpr (Or.inr hsvc)
        · exact Pool.mem_requireService.mpr (Or.inl hname)
      · intro s hs'
        rcases Pool.eq_or_new_of_requireService hs' with hold | rfl
        · exact hnot s hold
        · exact not_mem_nil
    · exact ⟨hsvc.resolve_right fun h => hready h.1, hnot⟩
  | none =>
    have hready : message.command = .ready := by
      rcases hqueues.2 with hready | ⟨-, hmem, -⟩
      · exact hready
      · exact absurd hmem (lookup_eq_none.mp hlook)
    rw [if_pos hready]
    refine ⟨Pool.mem_requireService.mpr (Or.inl rfl), fun s hs' => ?_⟩
    rcases Pool.eq_or_new_of_requireService hs' with hold | rfl
    · intro hmem
      obtain ⟨w, hw, haddr, -⟩ := hs.waiting hold hmem
      exact absurd haddr (hs.addr_lt hw).ne
    · exact not_mem_nil

theorem once_step {e : Event} (hs : b.pool.Sound cfg.roles) (ho : b.pool.Once)
    (hguard : QueuedOnce b e) (h : step cfg b e = .ok (b', out)) : b'.pool.Once := by
  obtain ⟨_, hch⟩ := step_change hs (fun he hqueues =>
    (queuedSender_ready hs (he ▸ hguard) hqueues).2) h
  obtain ⟨hs₁, hsvcs⟩ := entered_keeps hs e
  exact hch.once hs₁ fun name s h => ho (hsvcs ▸ h)

end

/-! ### Nothing is undefined -/

/-- The computation does not fail on a pointer, on a service that does not
exist or on the assertion. -/
structure Safe {α : Type} (x : Except Fault α) : Prop where
  fault : ∀ f, x = .error f → f ≠ .dangling ∧ f ≠ .noService ∧ f ≠ .assertion

section
variable {α β : Type}

theorem safe_ok (a : α) : Safe (.ok a) := ⟨nofun⟩

theorem safe_error {f : Fault} (hdangling : f ≠ .dangling) (hsvc : f ≠ .noService)
    (hassertion : f ≠ .assertion) : Safe (.error f : Except Fault α) :=
  ⟨fun _ h => Except.error.inj h ▸ ⟨hdangling, hsvc, hassertion⟩⟩

variable {x : Except Fault α}

theorem Safe.of_defined (h : ∃ a, x = .ok a) : Safe x := by
  obtain ⟨a, rfl⟩ := h
  exact safe_ok a

theorem Safe.bind {f : α → Except Fault β} (hx : Safe x)
    (hf : ∀ a, x = .ok a → Safe (f a)) : Safe (x.bind f) := by
  cases x with
  | error e => exact ⟨fun f hf => hx.fault f (by cases hf; rfl)⟩
  | ok a => exact hf a rfl

theorem Safe.map (hx : Safe x) (f : α → β) : Safe (x.map f) := by
  cases x with
  | error e => exact ⟨fun f hf => hx.fault f (by cases hf; rfl)⟩
  | ok a => exact safe_ok (f a)

theorem safe_forEach {σ : Type} {f : α → σ → Except Fault (σ × List β)}
    (hrnd : ∀ x s, Safe (f x s)) : ∀ (xs : List α) (s : σ), Safe (forEach f xs s)
  | [], _ => safe_ok _
  | x :: xs, s => (hrnd x s).bind fun r _ => (safe_forEach hrnd xs r.1).map _

theorem safe_exception {ε : Type} (x : Except ε α) :
    Safe (x.mapError fun _ => Fault.exception) := by
  cases x with
  | error e => exact safe_error nofun nofun nofun
  | ok a => exact safe_ok a

end

theorem safe_wellFormedTopic (x : Except TopicError Topic) : Safe (wellFormedTopic x) := by
  unfold wellFormedTopic
  split
  · exact safe_ok _
  · exact safe_error nofun nofun nofun
  · exact safe_ok _

theorem safe_subscribe (s : Subscriptions) (topic : Topic) : Safe (s.subscribe topic) := by
  unfold Subscriptions.subscribe
  dsimp only
  split_ifs
  · exact safe_error nofun nofun nofun
  · exact safe_ok _
  · exact safe_ok _

theorem safe_receivePubMessage (s : Subscriptions) (data : Bytes) :
    Safe (s.receivePubMessage data) := by
  unfold Subscriptions.receivePubMessage
  split
  · split_ifs
    · exact (safe_wellFormedTopic _).bind fun parsed _ => by
        cases parsed with
        | none => exact safe_ok _
        | some topic => exact safe_subscribe s topic
    · exact (safe_wellFormedTopic _).bind fun parsed _ => by
        cases parsed with
        | none => exact safe_ok _
        | some topic => exact safe_ok _
    · exact safe_ok _
  · exact safe_ok _

theorem safe_changeSubscription (b : Broker) (message : BrokerMessage) (isSubscribe : Bool) :
    Safe (b.changeSubscription message isSubscribe) := by
  refine (safe_wellFormedTopic _).bind fun parsed _ => ?_
  cases parsed with
  | none => exact safe_ok _
  | some topic =>
    refine Safe.map ?_ _
    cases isSubscribe with
    | true => exact (safe_subscribe _ _).map _
    | false => exact safe_ok _

theorem safe_registerNewService (cfg : Config) (clock : Clock) (serviceName : Bytes) (dns : Dns) :
    Safe (dns.registerNewService cfg clock serviceName) := by
  refine safe_forEach (fun address dns => ?_) _ _
  exact (safe_exception _).bind fun topic _ => safe_ok _

theorem safe_sendDnsHeartbeats (cfg : Config) (clock : Clock) (force : Bool)
    (services : List Bytes) (dns : Dns) : Safe (dns.sendDnsHeartbeats cfg clock force services) := by
  unfold Dns.sendDnsHeartbeats
  split_ifs
  · refine (safe_forEach (fun _ _ => safe_ok _) _ _).bind fun r _ => ?_
    exact (safe_forEach (safe_registerNewService cfg clock) _ _).map _
  · exact safe_ok _

theorem safe_sendReply (cfg : Config) (origin : Origin) (id : Bytes) (socket : Option Socket)
    (message : BrokerMessage) : Safe (sendReply cfg origin id socket message) := by
  unfold sendReply
  split_ifs
  · exact safe_ok _
  · exact safe_ok _
  · cases socket with
    | some socket => exact safe_ok _
    | none => exact safe_error nofun nofun nofun

theorem safe_handleInternally (cfg : Config) (b : Broker) (message : BrokerMessage)
    (handler : InternalHandler) : Safe (b.handleInternally cfg message handler) := by
  cases handler with
  | dns => exact (safe_exception _).bind fun reply _ => safe_ok _
  | echo => exact safe_ok _
  | service => exact safe_ok _
  | openapi =>
    dsimp only [handleInternally]
    split
    · exact safe_ok _
    · exact safe_ok _

theorem safe_serveRequest {b : Broker} (hs : b.pool.Sound cfg.roles) (ho : b.pool.Once)
    (clock : Clock) (client : Client) (message : BrokerMessage) {name : Bytes}
    (hname : name ∈ b.pool.services) : Safe (b.serveRequest cfg clock client message name) := by
  obtain ⟨s, hsvc⟩ := isSome_iff_exists.mp (lookup_isSome.mpr hname)
  unfold serveRequest
  rw [hsvc]
  dsimp only
  split
  · exact (safe_handleInternally ..).bind fun reply _ => (safe_sendReply ..).map _
  · exact (Safe.of_defined (Pool.handOver_defined hs ho hname clock.purge message)).map _

theorem safe_processClientsLoop (clock : Clock) : ∀ (ids : List Bytes) {b : Broker},
    b.pool.Sound cfg.roles → b.pool.Once → Safe (processClientsLoop cfg clock ids b)
  | [], b, _, _ => safe_ok _
  | id :: ids, b, hs, ho => by
    unfold processClientsLoop
    split
    · exact safe_processClientsLoop clock ids hs ho
    · next client _ =>
      split
      · exact safe_processClientsLoop clock ids hs ho
      · next requests _ =>
        dsimp only
        split
        · next hbest =>
          exact safe_serveRequest (b := b.popRequest id client requests) hs ho clock client _
            (Pool.mem_of_bestMatchingService hbest)
        · refine (safe_sendReply ..).bind fun out _ => Safe.map ?_ _
          exact safe_processClientsLoop clock ids hs ho

theorem safe_processWorker {socket : Socket} {message : BrokerMessage}
    (hs : b.pool.Sound cfg.roles) (ho : b.pool.Once)
    (hprot : message.protocolName ≠ clientProtocol)
    (hguard : QueuedOnce b (.message clock socket message)) :
    Safe (b.processWorker cfg clock socket message) := by
  have hlook := sender_lookup hs clock socket message
  have hs₁ : (sender cfg clock socket b message).1.Sound cfg.roles := hs.emplace ..
  have ho₁ : (sender cfg clock socket b message).1.Once := fun name s h =>
    ho (Pool.emplaceWorker_services .. ▸ h)
  have hreply : message.sourceId ∈ b.pool.workers →
      message.command = .partial_ ∨ message.command = .final →
      Safe (workerReply cfg clock { b with pool := (sender cfg clock socket b message).1 }
        (sender cfg clock socket b message).2 message) := by
    intro hknown hcmd
    unfold workerReply
    split
    · exact safe_ok _
    · next client hcl =>
      have hmem : message.serviceName ∈ b.clients :=
        lookup_isSome.mp (isSome_iff_exists.mpr ⟨client, hcl⟩)
      have hnot : message.command ≠ .ready := by
        rcases hcmd with hcmd | hcmd <;> simp [hcmd]
      have hqueued := queuedSender_ready hs hguard ⟨hprot, Or.inr ⟨hcmd, hknown, hmem⟩⟩
      rw [queuedSender, if_neg hnot] at hqueued
      refine (safe_sendReply ..).bind fun sent _ => Safe.map ?_ _
      exact .of_defined (Pool.workerWaiting_defined hs₁ ho₁ hlook hqueued.1 hqueued.2 cfg clock)
  unfold processWorker
  dsimp only
  cases hcmd : message.command with
  | ready =>
    have hqueued := queuedSender_ready hs hguard ⟨hprot, Or.inl hcmd⟩
    rw [queuedSender, if_pos hcmd] at hqueued
    have hrequire : Pool.Change cfg Pool.NotWaiting (sender cfg clock socket b message).1 [] _ [] :=
      .require _ message.serviceName message.data
    refine (Safe.of_defined (Pool.workerWaiting_defined (hrequire.sound hs₁)
      (hrequire.once hs₁ ho₁) hlook hqueued.1 hqueued.2 cfg clock)).bind fun r _ => ?_
    exact (safe_registerNewService ..).map _
  | partial_ =>
    split_ifs with hknown
    · exact hreply (of_decide_eq_true hknown) (Or.inl hcmd)
    · exact safe_ok _
  | final =>
    split_ifs with hknown
    · exact hreply (of_decide_eq_true hknown) (Or.inr hcmd)
    · exact safe_ok _
  | notify => exact ((safe_wellFormedTopic _).map _).map _
  | heartbeat =>
    split_ifs
    · exact safe_ok _
    · exact safe_ok _
  | invalid | get | set | disconnect | subscribe | unsubscribe => exact safe_ok _

theorem safe_step (hs : b.pool.Sound cfg.roles) (ho : b.pool.Once)
    (hguard : QueuedOnce b e) : Safe (step cfg b e) := by
  cases e with
  | message clock socket message =>
    simp only [step, receiveMessage]
    split_ifs with hprot
    · unfold receiveClientMessage
      split
      · exact safe_ok _
      · exact safe_changeSubscription ..
      · exact safe_changeSubscription ..
      · exact (safe_sendDnsHeartbeats ..).map _
      · exact safe_ok _
    · exact safe_processWorker hs ho hprot hguard
  | pubMessage data => exact (safe_receivePubMessage ..).map _
  | restMessage message =>
    simp only [step]
    split_ifs
    · unfold handleRestMessage
      split
      · exact safe_ok _
      · exact safe_ok _
      · exact safe_changeSubscription ..
      · exact safe_changeSubscription ..
      · exact safe_ok _
    · exact safe_ok _
  | processClients clock => exact safe_processClientsLoop clock _ hs ho
  | purgeWorkers now => exact (Safe.of_defined (Pool.purgeWorkers_defined hs ho now)).map _
  | purgeClients now => exact safe_ok _
  | sendHeartbeats now sent =>
    simp only [step, sendHeartbeats]
    split_ifs
    · exact safe_ok _
    · exact (Safe.of_defined (Pool.heartbeats_defined hs)).map _
  | purgeDnsServices clock now =>
    refine Safe.map ?_ _
    unfold Dns.purgeDnsServices
    split_ifs
    · exact safe_ok _
    · exact (safe_sendDnsHeartbeats ..).map _
  | addDnsAddress clock register address | run clock => exact (safe_sendDnsHeartbeats ..).map _
  | cleanup =>
    refine safe_forEach (fun id b => ?_) _ _
    unfold cleanupWorker
    split
    · exact safe_ok _
    · exact safe_ok _
  | rehash b₁ =>
    simp only [step]
    split_ifs
    · exact safe_ok _
    · exact safe_ok _

/-! ### The waiting lists of a run -/

/-- Every waiting address is that of a worker the broker has, which belongs to
the service it waits at, and no address waits twice. -/
structure WaitingExact (p : Pool) : Prop where
  denotes : ∀ {name s}, p.services.lookup name = some s → ∀ addr ∈ s.waiting,
    ∃ w, Pool.deref p.workers addr = .ok w ∧ p.workers.lookup w.id = some w ∧ w.serviceName = name
  once : (p.services.entries.flatMap fun e => e.2.waiting).Nodup

/-- In every run in which a worker is queued only while it does not wait, the
waiting lists are exact, and no such step fails on them. -/
theorem waiting_exact {cfg : Config} {now : Int} {trace : List (Event × List Output)}
    {b : Broker} (h : Run (machine cfg) QueuedOnce (initial cfg now) trace b) :
    WaitingExact b.pool ∧ ∀ e, QueuedOnce b e → Safe (step cfg b e) := by
  have hinv : b.pool.Sound cfg.roles ∧ b.pool.Once := by
    refine h.invariant (I := fun _ b => b.pool.Sound cfg.roles ∧ b.pool.Once) ?_ ?_
    · refine ⟨(sound_initial cfg now).1, fun name s hsvc => ?_⟩
      rw [(initial_services hsvc).1]
      exact nodup_nil
    · rintro trace b e _ _ ⟨hs, ho⟩ hguard hstep
      have hstep := machine_eq_some.mp hstep
      obtain ⟨_, hch⟩ :=
        step_change (Q := fun _ _ => True) hs (fun _ _ => trivial) hstep
      exact ⟨hch.sound (entered_keeps hs e).1, once_step hs ho hguard hstep⟩
  obtain ⟨hs, ho⟩ := hinv
  refine ⟨⟨fun {name s} hsvc addr hmem => ?_, hs.nodup_waiting ho⟩,
    fun e hguard => safe_step hs ho hguard⟩
  obtain ⟨w, hw, haddr, hname⟩ := hs.waiting hsvc hmem
  exact ⟨w, (Pool.deref_eq_ok hs.keyed).mpr ⟨hw, haddr⟩, hw, hname⟩

/-- READY of a worker of the service "/service". -/
def readyEvent : Event :=
  .message {} .router
    { sourceId := str "worker", protocolName := workerProtocol, command := .ready,
      serviceName := str "/service" }

/-- After its first READY a worker waits once. -/
theorem waiting_exact_ready : ∃ b out,
    machine exampleConfig (initial exampleConfig 0) readyEvent = some (b, out) ∧
    WaitingExact b.pool ∧ (b.pool.services.entries.flatMap fun e => e.2.waiting) = [0] := by
  have hdef :
      (machine exampleConfig (initial exampleConfig 0) readyEvent).isSome = true := by
    decide +kernel
  obtain ⟨⟨b, out⟩, hstep⟩ := isSome_iff_exists.mp hdef
  have hwaiting : ∀ r ∈ machine exampleConfig (initial exampleConfig 0) readyEvent,
      (r.1.pool.services.entries.flatMap fun e => e.2.waiting) = [0] := by decide +kernel
  exact ⟨b, out, hstep, (waiting_exact (Run.nil.snoc (by decide +kernel) hstep)).1,
    hwaiting (b, out) hstep⟩

/-- A second READY queues the worker twice; when it expires, the purge erases
it at its first address and then dereferences the second. -/
theorem second_ready_queues_twice :
    (exec (machine exampleConfig) (fun _ _ => True) (initial exampleConfig 0)
      [readyEvent, readyEvent]).map (fun r =>
        (r.2.pool.services.entries.flatMap fun e => e.2.waiting,
          (step exampleConfig r.2 (.purgeWorkers 4000)).map fun _ => ())) =
      some ([0, 0], .error .dangling) := by
  decide +kernel

end Broker

/-! ## Staying in rotation -/

/-- A request to the worker with that id. -/
def Output.isRequestTo (id : Bytes) : Output → Bool
  | .request _ _ message => message.sourceId == id
  | _ => false

/-- The number of requests that the worker is handed. -/
def requestsTo (id : Bytes) (out : List Output) : Nat := out.countP (Output.isRequestTo id)

/-- The worker waits at its service. -/
def Waits (p : Pool) (w : Worker) : Prop :=
  ∃ s, p.services.lookup w.serviceName = some s ∧ w.addr ∈ s.waiting

theorem requestsTo_eq_zero {id : Bytes} {out : List Output}
    (h : ∀ o ∈ out, o.kind ≠ .request) : requestsTo id out = 0 := by
  refine countP_eq_zero.mpr fun o ho hto => h o ho ?_
  cases o with
  | request => rfl
  | reply | restResponse | publication | notification | restNotification | serviceNames
  | disconnect | heartbeat | dnsChallenge | dnsReady | subSocket => cases hto

namespace Pool

variable {roles : List Bytes} {p p' : Pool} {cfg : Config} {clock : Clock} {w : Worker}
  {out : List Output}

/-- Requests go to workers that waited. -/
theorem Dispatched.requestsTo_eq_zero {name id : Bytes} {workers : UMap Bytes Worker}
    {waiting waiting' : List Nat} {q q' : RequestQueue}
    (h : Dispatched name workers waiting q waiting' q' out)
    (hid : ∀ addr ∈ waiting, ∀ w, deref workers addr = .ok w → w.id ≠ id) :
    requestsTo id out = 0 := by
  induction h with
  | done => rfl
  | @take addr rest q message q₁ worker waiting' q' out _ _ hwkr _ ih =>
    have hne := hid addr mem_cons_self worker hwkr
    rw [requestsTo, countP_cons_of_neg]
    · exact ih fun a ha => hid a (mem_cons_of_mem addr ha)
    · simpa [Output.isRequestTo, toWorker] using hne

/-- Without requests no worker is taken. -/
theorem Dispatched.waiting_eq {name : Bytes} {workers : UMap Bytes Worker}
    {waiting waiting' : List Nat} {q q' : RequestQueue}
    (h : Dispatched name workers waiting q waiting' q' out) (hcnt : q.requestCount = 0) :
    waiting' = waiting := by
  cases h with
  | done => rfl
  | take hpos => exact absurd hcnt hpos.ne'

/-- The service of a worker that is being queued, before and after. -/
theorem workerWaiting_service (hs : Sound roles p) (hw : p.workers.lookup w.id = some w)
    (h : workerWaiting cfg clock p w = .ok (p', out)) :
    ∃ s p₁ waiting' q', p.services.lookup w.serviceName = some s ∧
      Purged clock.purge (p.push cfg clock.waiting w s).services.keys
        (p.push cfg clock.waiting w s) p₁ ∧
      Dispatched w.serviceName p₁.workers ((s.waiting ++ [w.addr]).filter
          (isFresh (p.push cfg clock.waiting w s).workers clock.purge))
        s.requests waiting' q' out ∧
      p'.services.lookup w.serviceName = some { s with waiting := waiting', requests := q' } := by
  obtain ⟨s, hsvc, hd⟩ := workerWaiting_eq_ok h
  obtain ⟨p₁, _, waiting', q', hpurged, hsvc₁, hdispatched, rfl⟩ :=
    dispatch_eq_ok (hs.push hw hsvc cfg clock.waiting) hd
  have hpushed : (p.push cfg clock.waiting w s).services.lookup w.serviceName =
      some { s with waiting := s.waiting ++ [w.addr] } :=
    (lookup_setService ..).trans (if_pos rfl)
  rw [hpushed] at hsvc₁
  cases hsvc₁
  exact ⟨s, p₁, waiting', q', hsvc, hpurged, hdispatched,
    (lookup_setService ..).trans (if_pos rfl)⟩

theorem push_lookup (p : Pool) (cfg : Config) (now : Int) (w : Worker) (s : Service) :
    (p.push cfg now w s).workers.lookup w.id = some (w.renew cfg now) :=
  (lookup_setWorker ..).trans (if_pos rfl)

theorem push_isFresh (hs : Sound roles p) (hw : p.workers.lookup w.id = some w) {s : Service}
    (hsvc : p.services.lookup w.serviceName = some s) :
    isFresh (p.push cfg clock.waiting w s).workers clock.purge w.addr =
      decide (clock.purge ≤ updatedWorkerExpiry cfg clock.waiting) :=
  isFresh_eq (w := w.renew cfg clock.waiting) (hs.push hw hsvc cfg clock.waiting).keyed
    (push_lookup p cfg clock.waiting w s)

/-- A worker that is queued stays in rotation if it does not expire at once. -/
theorem workerWaiting_keeps (hs : Sound roles p) (hidle : Idle p)
    (hw : p.workers.lookup w.id = some w) (h : workerWaiting cfg clock p w = .ok (p', out))
    (hfresh : clock.purge ≤ updatedWorkerExpiry cfg clock.waiting) :
    Waits p' w ∨ requestsTo w.id out = 1 := by
  obtain ⟨s, _, _, _, hsvc, hpurged, hd, hsvc'⟩ := workerWaiting_service hs hw h
  have hs₁ := hs.push hw hsvc cfg clock.waiting
  have hlook := push_lookup p cfg clock.waiting w s
  have hkept : isFresh (p.push cfg clock.waiting w s).workers clock.purge w.addr = true :=
    (push_isFresh hs hw hsvc).trans (decide_eq_true hfresh)
  rw [filter_append, filter_cons_of_pos hkept, filter_nil] at hd
  rcases hidle hsvc with hnil | hcnt
  · rw [hnil, filter_nil, nil_append] at hd
    cases hd with
    | done => exact Or.inl ⟨_, hsvc', mem_singleton_self _⟩
    | take hpos htake hwkr hrest =>
      cases hrest
      obtain ⟨hlook₁, haddr⟩ := (deref_eq_ok (hpurged.sound hs₁).keyed).mp hwkr
      have heq := hs₁.keyed.addr_inj (hpurged.workers.mp hlook₁).1 hlook haddr
      refine Or.inr (countP_eq_length.mpr ?_)
      simp [Output.isRequestTo, toWorker, heq, Worker.renew]
  · have hsame := hd.waiting_eq hcnt
    refine Or.inl ⟨_, hsvc', ?_⟩
    rw [hsame]
    exact mem_append_right _ (mem_singleton_self _)

/-- A worker that expires while it is queued is purged before a request. -/
theorem workerWaiting_loses (hs : Sound roles p) (hw : p.workers.lookup w.id = some w)
    (h : workerWaiting cfg clock p w = .ok (p', out))
    (hexpired : updatedWorkerExpiry cfg clock.waiting < clock.purge) :
    ¬Waits p' w ∧ requestsTo w.id out = 0 := by
  obtain ⟨s, _, _, _, hsvc, hpurged, hd, hsvc'⟩ := workerWaiting_service hs hw h
  have hs₁ := hs.push hw hsvc cfg clock.waiting
  have hlook := push_lookup p cfg clock.waiting w s
  have hstale : isFresh (p.push cfg clock.waiting w s).workers clock.purge w.addr = false :=
    (push_isFresh hs hw hsvc).trans (decide_eq_false (not_le.mpr hexpired))
  constructor
  · rintro ⟨_, hs', hmem⟩
    rw [hsvc'] at hs'
    cases hs'
    have hfresh := (mem_filter.mp (hd.suffix.subset hmem)).2
    rw [hstale] at hfresh
    cases hfresh
  · refine hd.requestsTo_eq_zero fun addr hmem w' hw' hid => ?_
    obtain ⟨hlook', haddr⟩ := (deref_eq_ok (hpurged.sound hs₁).keyed).mp hw'
    have hold := (hpurged.workers.mp hlook').1
    rw [hid, hlook] at hold
    cases hold
    have hfresh := (mem_filter.mp hmem).2
    rw [← haddr] at hfresh
    exact absurd (hfresh.symm.trans hstale) nofun

end Pool

/-- A FINAL of a worker whose service exists keeps the worker in rotation -
it waits, or it is handed one request - exactly if the client is known and
the worker does not expire while it is queued, or if the client is not known
and the worker was waiting anyway. -/
theorem final_keeps_worker_iff {cfg : Config} {now : Int} {trace : List (Event × List Output)}
    {b : Broker} (h : Run (machine cfg) (fun _ _ => True) (initial cfg now) trace b)
    {clock : Clock} {socket : Socket} {message : BrokerMessage} {w : Worker}
    (hw : b.pool.workers.lookup message.sourceId = some w)
    (hcommand : message.command = .final) {b' : Broker} {out : List Output}
    (hprocess : b.processWorker cfg clock socket message = .ok (b', out)) :
    (Waits b'.pool w ∨ requestsTo w.id out = 1) ↔
      (message.serviceName ∈ b.clients ∧ clock.purge ≤ updatedWorkerExpiry cfg clock.waiting) ∨
        (message.serviceName ∉ b.clients ∧ Waits b.pool w) := by
  obtain ⟨hs, hidle⟩ := sound_run h
  have hid : w.id = message.sourceId := hs.keyed.id_eq hw
  have hsender : sender cfg clock socket b message = (b.pool, w) := by
    rw [sender, Pool.emplaceWorker, hw]
  have hproc := processWorker_eq_ok hprocess
  rw [hsender] at hproc
  cases hproc with
  | reply _ _ hreply =>
    rcases workerReply_eq_ok hreply with
      ⟨hcl, rfl, rfl⟩ | ⟨client, pool, sent, requests, hcl, hsent, hpool, rfl, rfl⟩
    · have hnot : message.serviceName ∉ b.clients := lookup_eq_none.mp hcl
      simp [hnot, requestsTo]
    · have hmem : message.serviceName ∈ b.clients :=
        lookup_isSome.mp (isSome_iff_exists.mpr ⟨client, hcl⟩)
      have hreplies : requestsTo w.id sent = 0 := by
        refine requestsTo_eq_zero fun o ho => ?_
        rcases sendReply_outputs hsent o ho with hk | hk <;> rw [hk] <;> nofun
      have hcnt : requestsTo w.id (sent ++ requests) = requestsTo w.id requests := by
        rw [requestsTo, countP_append]
        exact (congrArg (· + _) hreplies).trans (Nat.zero_add _)
      have hw' : b.pool.workers.lookup w.id = some w := hid ▸ hw
      rw [hcnt]
      by_cases hfresh : clock.purge ≤ updatedWorkerExpiry cfg clock.waiting
      · simpa [hmem, hfresh] using Pool.workerWaiting_keeps hs hidle hw' hpool hfresh
      · have hlost := Pool.workerWaiting_loses hs hw' hpool (not_le.mp hfresh)
        simp [hmem, hfresh, hlost.1, hlost.2]
  | ready hready => rw [hcommand] at hready; cases hready
  | disconnected _ hunk =>
    exact absurd (lookup_isSome.mp (isSome_iff_exists.mpr ⟨w, hw⟩)) hunk
  | notify hnotify => rw [hcommand] at hnotify; cases hnotify
  | renewed hheartbeat => rw [hcommand] at hheartbeat; cases hheartbeat
  | ignored hignored => simp [hcommand] at hignored

/-- A GET of client "c1" for the service "/service". -/
def getEvent : Event :=
  .message {} .router
    { sourceId := str "c1", protocolName := clientProtocol, command := .get,
      serviceName := str "/service", clientRequestID := str "1" }

/-- The worker's reply to client "c1". -/
def finalMessage : BrokerMessage :=
  { sourceId := str "worker", protocolName := workerProtocol, command := .final,
    serviceName := str "c1", clientRequestID := str "1" }

/-- The run in which the worker is handed the request of client "c1". -/
def requestRun : List Event := [readyEvent, getEvent, .processClients {}]

/-- A worker that answers a client that is known is in rotation again. -/
theorem final_keeps_worker_iff_known_client : ∃ trace b w b' out,
    exec (machine exampleConfig) (fun _ _ => True) (initial exampleConfig 0) requestRun =
      some (trace, b) ∧
    b.pool.workers.lookup (str "worker") = some w ∧ ¬Waits b.pool w ∧
    b.processWorker exampleConfig {} .router finalMessage = .ok (b', out) ∧
    (Waits b'.pool w ∨ requestsTo w.id out = 1) := by
  have hdef : ((exec (machine exampleConfig) (fun _ _ => True) (initial exampleConfig 0)
      requestRun).bind fun r => (r.2.pool.workers.lookup (str "worker")).bind fun _ =>
        (r.2.processWorker exampleConfig {} .router finalMessage).toOption).isSome = true := by
    decide +kernel
  obtain ⟨⟨b', out⟩, hall⟩ := isSome_iff_exists.mp hdef
  obtain ⟨⟨trace, b⟩, hexec, hall⟩ := bind_eq_some_iff.mp hall
  obtain ⟨w, hw, hall⟩ := bind_eq_some_iff.mp hall
  have hprocess : b.processWorker exampleConfig {} .router finalMessage = .ok (b', out) :=
    toOption_eq_some.mp hall
  have hfacts : ∀ r ∈ exec (machine exampleConfig) (fun _ _ => True) (initial exampleConfig 0)
      requestRun, str "c1" ∈ r.2.clients ∧
        ∀ e ∈ r.2.pool.services.entries, e.2.waiting = [] := by decide +kernel
  obtain ⟨hcl, hnone⟩ := hfacts (trace, b) hexec
  refine ⟨trace, b, w, b', out, hexec, hw, ?_, hprocess, ?_⟩
  · rintro ⟨s, hsvc, hmem⟩
    rw [hnone ⟨_, s⟩ (UMap.mem_entries_iff.mpr hsvc)] at hmem
    cases hmem
  · exact (final_keeps_worker_iff (Run.of_exec hexec) hw rfl hprocess).mpr
      (Or.inl ⟨hcl, by decide⟩)

/-- If the client expires before the worker answers, the worker neither waits
nor is handed anything. -/
theorem reply_to_purged_client_loses_worker :
    (exec (machine exampleConfig) (fun _ _ => True) (initial exampleConfig 0)
      (requestRun ++ [.purgeClients 20000, .message {} .router finalMessage])).map (fun r =>
        (decide (str "worker" ∈ r.2.pool.workers), decide (str "/service" ∈ r.2.pool.services),
          r.2.pool.services.entries.flatMap fun e => e.2.waiting,
          r.1.map fun x => requestsTo (str "worker") x.2)) =
      some (true, true, [], [0, 0, 1, 0, 0]) := by
  decide +kernel

end OpenCmw
