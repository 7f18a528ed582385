import OpenCmw.BrokerSteps

/-!
# When clients are purged

`purgeClients` removes the clients whose expiry has passed, and their queued
requests with them. The expiry is written where the entry of a client is
made, by the first request since the client was last removed; `try_emplace`
keeps the entry that a later request finds, and with it the old expiry.
Workers are renewed by what they send (`Worker.renew`), clients are not.

`entryTime` reads off the events of a run when the entry of a client was made.
The expiry in the table is that time plus the timeout after every run
(`expiryOf_eq`), so that a purge removes exactly the clients that were entered
longer ago than the timeout - whether or not they have sent since.
-/

namespace OpenCmw.Broker

open Option

/-! ## Requests and entries -/

/-- A message of the client protocol that is queued for `processClients`: the
client, and when the message arrived. -/
def Event.request? : Event → Option (Bytes × Int)
  | .message clock _ received =>
    if received.protocolName = clientProtocol ∧
        received.command ∉ [.ready, .subscribe, .unsubscribe] then
      some (received.sourceId, clock.arrival)
    else none
  | _ => none

/-- One event more. -/
def entryTimeAfter (timeout : Int) (id : Bytes) (entered : Option Int) : Event → Option Int
  | .purgeClients now => entered.filter fun t => now ≤ t + timeout
  | e =>
    match e.request? with
    | some (sender, arrival) => if id = sender then some (entered.getD arrival) else entered
    | none => entered

/-- When the request that made the client's entry arrived: the first since a
purge came later than the timeout after the one before. -/
def entryTime (timeout : Int) (id : Bytes) (trace : List (Event × List Output)) : Option Int :=
  trace.foldl (fun t entry => entryTimeAfter timeout id t entry.1) none

/-- No request of the client arrived within the timeout before `now`. -/
def Silent (timeout : Int) (id : Bytes) (now : Int) (trace : List (Event × List Output)) : Prop :=
  ∀ entry ∈ trace, ∀ arrival, entry.1.request? = some (id, arrival) → arrival + timeout < now

/-- The expiry in the client's entry. -/
def expiryOf (b : Broker) (id : Bytes) : Option Int := (b.clients.lookup id).map (·.expiry)

variable {b b' : Broker} {id : Bytes} {cfg : Config}

theorem expiryOf_of_clients (h : b'.clients = b.clients) (id : Bytes) :
    b'.expiryOf id = b.expiryOf id := by
  rw [expiryOf, expiryOf, h]

/-! ## What the steps do to the expiry -/

theorem expiryOf_queueRequest (b : Broker) (message : BrokerMessage) (newClient : Client)
    (id : Bytes) : (b.queueRequest message newClient).expiryOf id =
      if id = message.sourceId then some ((b.expiryOf id).getD newClient.expiry)
      else b.expiryOf id := by
  unfold expiryOf queueRequest
  rw [UMap.lookup_insert]
  split_ifs with hid
  · subst hid
    cases b.clients.lookup message.sourceId <;> rfl
  · rfl

theorem expiryOf_popRequest {client : Client}
    (hcl : b.clients.lookup id = some client) (requests : List BrokerMessage) (id' : Bytes) :
    (b.popRequest id client requests).expiryOf id' = b.expiryOf id' := by
  unfold expiryOf popRequest
  rw [UMap.lookup_insert]
  split_ifs with hid
  · rw [hid, hcl]
    rfl
  · rfl

theorem ClientsProcessed.expiryOf_eq {clock : Clock}
    {out : List Output} (h : ClientsProcessed cfg clock b b' out) (id : Bytes) :
    b'.expiryOf id = b.expiryOf id := by
  induction h with
  | done => rfl
  | unknown hcl _ _ _ ih => rw [ih, expiryOf_popRequest hcl]
  | served hcl _ hserved =>
    rcases serveRequest_eq_ok hserved with ⟨_, _, -, -, rfl⟩ | ⟨_, -, rfl⟩
    · exact expiryOf_popRequest hcl _ id
    · exact expiryOf_popRequest hcl _ id

theorem expiryOf_purgeClients (htimeout : cfg.settings.clientTimeout ≠ 0)
    (b : Broker) (now : Int) (hid : id ≠ kRestSourceId) :
    (b.purgeClients cfg now).expiryOf id = (b.expiryOf id).filter fun expiry => now ≤ expiry := by
  unfold expiryOf purgeClients
  rw [if_neg htimeout]
  refine ext fun expiry => ?_
  simp only [map_eq_some_iff, UMap.lookup_eraseIf, filter_eq_some_iff]
  constructor
  · rintro ⟨client, ⟨hcl, hkept⟩, rfl⟩
    refine ⟨⟨client, hcl, rfl⟩, ?_⟩
    simpa [hid] using hkept
  · rintro ⟨⟨client, hcl, rfl⟩, hkept⟩
    refine ⟨client, ⟨hcl, ?_⟩, rfl⟩
    simpa [hid] using hkept

/-- A request is queued under the client's entry, which is made if there is
none. -/
theorem request_queued {clock : Clock} {socket : Socket}
    {message : BrokerMessage} {out : List Output} (hprot : message.protocolName = clientProtocol)
    (hcmd : message.command ∉ [.ready, .subscribe, .unsubscribe])
    (h : step cfg b (.message clock socket message) = .ok (b', out)) :
    ∃ dns, b' = { b with dns }.queueRequest message
      { socket := some socket, id := message.sourceId,
        expiry := updatedClientExpiry cfg clock.arrival } := by
  simp only [step, receiveMessage, if_pos hprot] at h
  unfold receiveClientMessage at h
  cases hc : message.command with
  | ready | subscribe | unsubscribe => simp [hc] at hcmd
  | heartbeat =>
    rw [hc] at h
    obtain ⟨⟨dns, _⟩, -, heq⟩ := map_eq_ok.mp h
    cases heq
    exact ⟨dns, rfl⟩
  | invalid | get | set | partial_ | final | disconnect | notify =>
    rw [hc] at h
    cases h
    exact ⟨b.dns, rfl⟩

/-- The expiry in the table is that of the time at which the client was
entered. -/
def Expires (cfg : Config) (id : Bytes) (b : Broker) (t : Option Int) : Prop :=
  b.expiryOf id = t.map (updatedClientExpiry cfg)

section
variable {cfg : Config} {id : Bytes} {b b' : Broker} {t : Option Int} {out : List Output}

/-- Other events leave the table's expiries alone. -/
theorem Stepped.expiryOf_eq {e : Event} (h : Stepped cfg b e b' out) (hid : id ≠ kRestSourceId)
    (hmsg : ∀ clock socket message, e ≠ .message clock socket message)
    (hpurge : ∀ now, e ≠ .purgeClients now) : b'.expiryOf id = b.expiryOf id := by
  cases h with
  | worker | queued => exact absurd rfl (hmsg _ _ _)
  | purgeClients now => exact absurd rfl (hpurge now)
  | restQueued =>
    rw [expiryOf_queueRequest]
    exact if_neg hid
  | clients hproc => exact hproc.expiryOf_eq id
  | cleanup hcleanup => exact expiryOf_of_clients (cleanup_frame hcleanup).2.1 id
  | rehash hperm => rw [expiryOf, expiryOf, AList.perm_lookup hperm.2.2.1]
  | purgeWorkers => rfl
  | other _ _ hcls => exact expiryOf_of_clients hcls id

theorem Expires.message (hb : Expires cfg id b t) {clock : Clock} {socket : Socket}
    {message : BrokerMessage} (h : step cfg b (.message clock socket message) = .ok (b', out)) :
    Expires cfg id b'
      (entryTimeAfter cfg.settings.clientTimeout id t (.message clock socket message)) := by
  unfold Expires at hb ⊢
  unfold entryTimeAfter Event.request?
  dsimp only
  split_ifs with hreq
  · obtain ⟨dns, rfl⟩ := request_queued hreq.1 hreq.2 h
    have hexpiry : ({ b with dns } : Broker).expiryOf id = b.expiryOf id := rfl
    rw [expiryOf_queueRequest, hexpiry, hb]
    dsimp only
    split_ifs
    · cases t <;> rfl
    · rfl
  · dsimp only
    rw [← hb]
    cases step_eq_ok h with
    | worker _ hwkr => exact expiryOf_of_clients hwkr.frame.2 id
    | queued hprot hcmd => exact absurd ⟨hprot, hcmd⟩ hreq
    | other _ _ hcls => exact expiryOf_of_clients hcls id

theorem Expires.keep (htimeout : cfg.settings.clientTimeout ≠ 0) (hid : id ≠ kRestSourceId)
    (hb : Expires cfg id b t) {e : Event} (h : step cfg b e = .ok (b', out)) :
    Expires cfg id b' (entryTimeAfter cfg.settings.clientTimeout id t e) := by
  cases e with
  | message clock socket message => exact hb.message h
  | purgeClients now =>
    cases h
    unfold Expires at hb ⊢
    rw [expiryOf_purgeClients htimeout b now hid, hb, entryTimeAfter]
    cases t with
    | none => rfl
    | some t =>
      rw [map_some, filter_some, filter_some, updatedClientExpiry]
      split_ifs <;> rfl
  | _ => exact ((step_eq_ok h).expiryOf_eq hid (by simp) (by simp)).trans hb

end

/-- The invariant of all runs. -/
theorem expiryOf_eq (htimeout : cfg.settings.clientTimeout ≠ 0) {start : Int}
    {ok : Broker → Event → Prop} {trace : List (Event × List Output)}
    (h : Run (machine cfg) ok (initial cfg start) trace b) (hid : id ≠ kRestSourceId) :
    Expires cfg id b (entryTime cfg.settings.clientTimeout id trace) := by
  have hstart : Expires cfg id (initial cfg start) none := rfl
  refine h.invariant (I := fun trace b =>
    Expires cfg id b (entryTime cfg.settings.clientTimeout id trace)) hstart ?_
  intro trace b e b' out hb _ hstep
  rw [entryTime, List.foldl_concat]
  exact hb.keep htimeout hid (machine_eq_some.mp hstep)

/-- A purge removes a client exactly if it was entered longer ago than the
timeout. -/
theorem removed_iff (htimeout : cfg.settings.clientTimeout ≠ 0) (hid : id ≠ kRestSourceId) {t : Option Int} (hb : Expires cfg id b t) (now : Int) :
    (id ∈ b.clients ∧ id ∉ (b.purgeClients cfg now).clients) ↔
      ∃ time, t = some time ∧ time + cfg.settings.clientTimeout < now := by
  have hmem : ∀ b : Broker, id ∈ b.clients ↔ (b.expiryOf id).isSome := fun b => by
    rw [expiryOf, isSome_map, AList.lookup_isSome]
  rw [hmem, hmem, expiryOf_purgeClients htimeout b now hid, hb]
  cases t with
  | none => simp
  | some time => simp [filter_some, updatedClientExpiry]

/-! ## Purging only clients that are silent -/

/-- Every client that the purge removes has been silent for the timeout
exactly if every client that was entered longer ago than the timeout has. -/
theorem purgeClients_only_silent_iff {cfg : Config} (htimeout : cfg.settings.clientTimeout ≠ 0)
    {start : Int} {trace : List (Event × List Output)} {b : Broker}
    (h : Run (machine cfg) (fun _ _ => True) (initial cfg start) trace b) (now : Int) :
    (∀ id, id ≠ kRestSourceId → id ∈ b.clients → id ∉ (b.purgeClients cfg now).clients →
        Silent cfg.settings.clientTimeout id now trace) ↔
      ∀ id, id ≠ kRestSourceId → ∀ time, entryTime cfg.settings.clientTimeout id trace = some time →
        time + cfg.settings.clientTimeout < now → Silent cfg.settings.clientTimeout id now trace := by
  constructor
  · intro hpurge id hid time htime hnow
    have hremoved := (removed_iff htimeout hid (expiryOf_eq htimeout h hid) now).mpr
      ⟨time, htime, hnow⟩
    exact hpurge id hid hremoved.1 hremoved.2
  · intro hentered id hid hmem hnot
    obtain ⟨time, htime, hnow⟩ :=
      (removed_iff htimeout hid (expiryOf_eq htimeout h hid) now).mp ⟨hmem, hnot⟩
    exact hentered id hid time htime hnow

/-- A request of client "client". -/
def sampleRequest : BrokerMessage :=
  { protocolName := clientProtocol, command := .get, sourceId := str "client",
    serviceName := str "/service" }

/-- The client has sent it at 0 and once more later. -/
def sendsAgain (cfg : Config) (later : Int) : List (Event × List Output) × Broker :=
  let newClient : Client :=
    { socket := some .router, id := str "client", expiry := updatedClientExpiry cfg 0 }
  ([(.message {} .router sampleRequest, []),
      (.message { arrival := later } .router sampleRequest, [])],
    ((initial cfg 0).queueRequest sampleRequest newClient).queueRequest sampleRequest
      { newClient with expiry := updatedClientExpiry cfg later })

theorem sendsAgain_run (cfg : Config) (later : Int) :
    Run (machine cfg) (fun _ _ => True) (initial cfg 0) (sendsAgain cfg later).1
      (sendsAgain cfg later).2 :=
  (Run.nil.snoc trivial rfl).snoc trivial rfl

/-- With a timeout of 10000, a client that sends at 0 and at 9999 is removed
at 10001. -/
theorem purgeClients_removes_active_client :
    let cfg : Config := { brokerName := str "/broker" }
    let (trace, b) := sendsAgain cfg 9999
    cfg.settings.clientTimeout = 10000 ∧
      Run (machine cfg) (fun _ _ => True) (initial cfg 0) trace b ∧
      str "client" ≠ kRestSourceId ∧ str "client" ∈ b.clients ∧
      str "client" ∉ (b.purgeClients cfg 10001).clients ∧
      ¬Silent 10000 (str "client") 10001 trace := by
  refine ⟨rfl, sendsAgain_run _ _, by decide, by decide, by decide, fun hsilent => ?_⟩
  have hlate := hsilent _ (List.mem_cons_of_mem _ List.mem_cons_self) 9999 rfl
  omega

/-- At 20000 the client is removed after it has been silent for the timeout. -/
theorem purgeClients_only_silent_iff_later :
    let cfg : Config := { brokerName := str "/broker" }
    let (trace, b) := sendsAgain cfg 9999
    str "client" ∉ (b.purgeClients cfg 20000).clients ∧
      ∀ id, id ≠ kRestSourceId → id ∈ b.clients → id ∉ (b.purgeClients cfg 20000).clients →
        Silent 10000 id 20000 trace := by
  refine ⟨by decide,
    (purgeClients_only_silent_iff (by decide) (sendsAgain_run _ 9999) 20000).mpr ?_⟩
  intro id _ time _ _ entry hent arrival hreq
  have harrival : arrival = 0 ∨ arrival = 9999 := by
    rcases List.mem_pair.mp hent with rfl | rfl
    · exact Or.inl (congrArg Prod.snd (Option.some.inj hreq)).symm
    · exact Or.inr (congrArg Prod.snd (Option.some.inj hreq)).symm
  change arrival + 10000 < 20000
  omega

end OpenCmw.Broker
