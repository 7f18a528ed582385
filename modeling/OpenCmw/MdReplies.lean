import OpenCmw.MdClient

/-!
# Replies of the Majordomo client

`issued` reads off a run which commands were given to `request` and the number
each was sent with. An entry of the table of requests is under the number its
command was sent with, and a callback is in the table or was called, once
(`Sound`). So a callback can only be called with a message for another request
if the number of the message is not the one the message carries: that number is
0, which stands for "none" as well as for the first request.
-/

namespace OpenCmw.MdClient

open Option (some)
open Or (inr inl)
open Output (reply)
open List UMap

/-! ## Commands and calls of a run -/

/-- The command of a call of `request` and the number it was sent with. -/
def issuedBy : Event × List Output → Option (ClientCommand × Option UInt64)
  | (.request cmd, [.sendCmd _ _ reqId _ _]) => some (cmd, some reqId)
  | (.request cmd, _) => some (cmd, none)
  | _ => none

/-- The calls of `request`, in order; the n-th is named `n`. -/
def issued (trace : List (Event × List Output)) : List (ClientCommand × Option UInt64) :=
  trace.filterMap issuedBy

variable (n : Nat)

def Output.isReply : Output → Bool
  | .reply callback _ => callback == n
  | _ => false

/-- How often the callback of the n-th command was called with a reply. -/
def replyCount (trace : List (Event × List Output)) : Nat :=
  (trace.flatMap (·.2)).countP (Output.isReply n)

/-- The callback of the n-th command waits for its reply. -/
def Pending (s : State) (n : Nat) : Prop :=
  ∃ id entry, s.requests.lookup id = some entry ∧ entry.callback = n

theorem issued_snoc (trace : List (Event × List Output)) (e : Event) (out : List Output) :
    issued (trace ++ [(e, out)]) = issued trace ++ (issuedBy (e, out)).toList := by
  rw [issued, filterMap_append, issued]
  cases h : issuedBy (e, out) <;> simp [h]

theorem issuedBy_request (cmd : ClientCommand) (reqId : UInt64) :
    issuedBy (.request cmd, [cmd.send reqId]) = some (cmd, some reqId) := rfl

theorem replyCount_snoc (trace : List (Event × List Output)) (e : Event) (out : List Output) :
    replyCount n (trace ++ [(e, out)]) = replyCount n trace + out.countP (Output.isReply n) := by
  simp [replyCount]

theorem countP_send (cmd : ClientCommand) (reqId : UInt64) :
    [cmd.send reqId].countP (Output.isReply n) = 0 := rfl

theorem countP_updates (s : State) (event : Message) :
    (updates s event).countP (Output.isReply n) = 0 := by
  unfold updates
  cases s.subscriptions.lookup event.serviceName <;> rfl

theorem reply_mem_dispatched {s : State} {id : UInt64} {event message : Message} {n : Nat} :
    reply n message ∈ updates s event ++ replies s id event ↔
      message = event ∧ ∃ entry, s.requests.lookup id = some entry ∧ entry.callback = n := by
  have hupdates : reply n message ∉ updates s event := by
    unfold updates
    cases s.subscriptions.lookup event.serviceName <;> simp
  rw [mem_append, or_iff_right hupdates, replies]
  cases s.requests.lookup id with
  | none => simp
  | some entry => simp [and_comm, eq_comm]

/-! ## What every run keeps -/

/-- One for the n-th command. -/
def weight (entry : Entry) : Nat := if entry.callback = n then 1 else 0

structure Sound (trace : List (Event × List Output)) (s : State) : Prop where
  count : s.issued = (issued trace).length
  /-- A callback waits under the number that its command was sent with. -/
  sent : ∀ id entry, s.requests.lookup id = some entry →
    ∃ cmd, (issued trace)[entry.callback]? = some (cmd, some id)
  /-- It waits or it was called, once. -/
  once : ∀ n, replyCount n trace + total (weight n) s.requests ≤
    if n < s.issued then 1 else 0

theorem Sound.initial : Sound [] {} where
  count := rfl
  sent := fun id entry h => by cases h
  once := fun n => by simp [replyCount, total]

section
variable {trace : List (Event × List Output)} {s s' : State} {e : Event} {out : List Output}

variable {id : UInt64} {entry : Entry}

/-- The number of a waiting callback is that of its command. -/
theorem Sound.id_unique (hs : Sound trace s) {id' : UInt64} {entry' : Entry}
    (h : s.requests.lookup id = some entry) (h' : s.requests.lookup id' = some entry')
    (heq : entry.callback = entry'.callback) : id = id' := by
  obtain ⟨_, hcmd⟩ := hs.sent id entry h
  obtain ⟨_, hcmd'⟩ := hs.sent id' entry' h'
  rw [heq] at hcmd
  have := some.inj (hcmd.symm.trans hcmd')
  exact some.inj (congrArg Prod.snd this)

theorem lookup_of_erase {m : UMap UInt64 Entry} {id' : UInt64}
    (h : (m.erase id).lookup id' = some entry) : id' ≠ id ∧ m.lookup id' = some entry := by
  rw [lookup_erase] at h
  split_ifs at h with hid
  exact ⟨hid, h⟩

theorem total_erase_le (m : UMap UInt64 Entry) (id : UInt64) (n : Nat) :
    total (weight n) (m.erase id) ≤ total (weight n) m := by
  have := total_erase m id (weight n)
  omega

theorem total_tryEmplace_le (m : UMap UInt64 Entry) (id : UInt64) (entry : Entry) (n : Nat) :
    total (weight n) (m.tryEmplace id entry) ≤ total (weight n) m + weight n entry := by
  unfold tryEmplace
  split_ifs
  · exact Nat.le_add_right ..
  · have := total_insert m id entry (weight n)
    omega

/-- A command keeps `Sound` if it enters its own callback at most and calls
none. -/
theorem Sound.command (hs : Sound trace s) {cmd : ClientCommand} {sent : Option UInt64}
    (hissued : issuedBy (.request cmd, out) = some (cmd, sent)) (hnext : s'.issued = s.issued + 1)
    (hout : ∀ n, out.countP (Output.isReply n) = 0)
    (hlook : ∀ id entry, s'.requests.lookup id = some entry →
      s.requests.lookup id = some entry ∨ entry.callback = s.issued ∧ sent = some id)
    (htotal : ∀ n, total (weight n) s'.requests ≤
      total (weight n) s.requests + if n = s.issued then 1 else 0) :
    Sound (trace ++ [(.request cmd, out)]) s' where
  count := by
    rw [issued_snoc, hissued, hnext, hs.count]
    simp
  sent := by
    intro id entry h
    rw [issued_snoc, hissued]
    rcases hlook id entry h with hold | ⟨hnew, rfl⟩
    · obtain ⟨cmd', hcmd⟩ := hs.sent id entry hold
      have hlt := (List.getElem?_eq_some_iff.mp hcmd).1
      exact ⟨cmd', by rw [List.getElem?_append_left hlt, hcmd]⟩
    · refine ⟨cmd, ?_⟩
      rw [hnew, hs.count, Option.toList_some, getElem?_concat_length]
  once := by
    intro n
    have honce := hs.once n
    have hle := htotal n
    rw [replyCount_snoc, hout n, hnext]
    split_ifs at honce hle ⊢ <;> omega

theorem Sound.keep (hs : Sound trace s) (h : step s e = some (s', out)) :
    Sound (trace ++ [(e, out)]) s' := by
  cases e with
  | request cmd =>
    have hreq : request cmd s = (s', out) := some.inj h
    rcases request_cases cmd s with ⟨-, -, heq⟩ | ⟨-, -, _, -, heq⟩ | ⟨-, -, _, -, heq⟩ |
      ⟨-, -, heq⟩ | ⟨-, heq⟩
    · cases hreq.symm.trans heq
      refine hs.command (issuedBy_request ..) rfl (fun n => countP_send n ..) ?_ fun n => ?_
      · intro id entry hlook
        rw [lookup_tryEmplace] at hlook
        split_ifs at hlook with hid
        · subst hid
          cases hold : s.requests.lookup s.requestId with
          | none =>
            rw [hold] at hlook
            cases hlook
            exact inr ⟨rfl, rfl⟩
          | some old =>
            rw [hold] at hlook
            exact inl hlook
        · exact inl hlook
      · refine (total_tryEmplace_le ..).trans_eq ?_
        simp only [weight, eq_comm]
    · cases hreq.symm.trans heq
      exact hs.command (issuedBy_request ..) rfl (fun n => countP_send n ..)
        (fun id entry => inl) fun n => Nat.le_add_right ..
    · cases hreq.symm.trans heq
      exact hs.command rfl rfl (fun n => rfl) (fun id entry => inl)
        fun n => Nat.le_add_right ..
    · cases hreq.symm.trans heq
      exact hs.command (issuedBy_request ..) rfl (fun n => countP_send n ..)
        (fun id entry h => inl (lookup_of_erase h).2)
        fun n => (total_erase_le ..).trans (Nat.le_add_right ..)
    · cases hreq.symm.trans heq
      exact hs.command (issuedBy_request ..) rfl (fun n => countP_send n ..)
        (fun id entry => inl) fun n => Nat.le_add_right ..
  | poll client =>
    cases h
    refine ⟨?_, ?_, fun n => ?_⟩
    · rw [issued_snoc]
      exact hs.count.trans (by simp [issuedBy])
    · rw [issued_snoc]
      simpa [issuedBy] using hs.sent
    · rw [replyCount_snoc]
      exact hs.once n
  | receive message =>
    have hissued : issued (trace ++ [(.receive message, out)]) = issued trace := by
      rw [issued_snoc]
      simp [issuedBy]
    obtain ⟨client, _, -, ⟨-, rfl, rfl⟩ | ⟨event, id, -, -, rfl, rfl⟩⟩ :=
      step_receive h
    · refine ⟨hissued ▸ hs.count, hissued ▸ hs.sent, fun n => ?_⟩
      rw [replyCount_snoc]
      exact hs.once n
    · refine ⟨hissued ▸ hs.count, fun id' entry hlook => ?_, fun n => ?_⟩
      · rw [hissued]
        exact hs.sent id' entry (lookup_of_erase hlook).2
      · have honce := hs.once n
        have herase := total_erase s.requests id (weight n)
        rw [replyCount_snoc, countP_append, countP_updates, replies]
        cases hlook : s.requests.lookup id with
        | none => simpa [hlook] using le_trans (by omega) honce
        | some entry =>
          have hcnt : [reply entry.callback event].countP (Output.isReply n) =
              weight n entry := by
            simp [Output.isReply, countP_cons, weight]
          rw [hlook, Option.elim_some] at herase
          dsimp only
          rw [hcnt]
          omega

end

theorem sound {ok : State → Event → Prop} {trace : List (Event × List Output)} {s : State}
    (h : Run step ok {} trace s) : Sound trace s :=
  h.invariant Sound.initial fun hs _ hstep => hs.keep hstep

/-! ## Replies reach their own request -/

/-- What the servers send: a FINAL with the id of a request, or a NOTIFY with
the id of a subscribe or with none. -/
def Answers (_ : State) : Event → Prop
  | .receive message =>
    (message.command = .final ∧ ∃ id : UInt64, message.clientRequestID = toDec id.toNat) ∨
    (message.command = .notify ∧
      (message.clientRequestID = [] ∨ ∃ id : UInt64, message.clientRequestID = toDec id.toNat))
  | _ => True

/-- A step calls callbacks of requests at most once in the run so far, with
messages that carry the id their request was sent with, and drops no callback
that it does not call. -/
structure OwnReplies (trace : List (Event × List Output)) (s : State) (e : Event) (s' : State)
    (out : List Output) : Prop where
  once : ∀ n, replyCount n (trace ++ [(e, out)]) ≤ 1
  carried : ∀ n message, reply n message ∈ out → ∃ cmd id,
    (issued trace)[n]? = some (cmd, some id) ∧ message.clientRequestID = toDec id.toNat
  kept : ∀ n, Pending s n → Pending s' n ∨ ∃ message, reply n message ∈ out

/-- While request 0 waits, no UNSUBSCRIBE with a callback is given, no message
without its id arrives from a subscription socket, and none without an id from
another. -/
def Undisturbed (s : State) : Event → Prop
  | .request cmd => cmd.callback = true → cmd.command = .unsubscribe → 0 ∉ s.requests
  | .poll _ => True
  | .receive message => ∀ client receivedEvent, s.polled = some (client, receivedEvent) →
      0 ∈ s.requests → match client.scheme with
      | .mds => message.clientRequestID = toDec 0
      | .mdp => message.clientRequestID ≠ []

section
variable {trace : List (Event × List Output)} {s s' : State} {e : Event} {out : List Output}

variable {id : UInt64} {message : BrokerMessage} {event : Message}

theorem mem_requests : id ∈ s.requests ↔ ∃ entry, s.requests.lookup id = some entry := by
  rw [← AList.lookup_isSome, Option.isSome_iff_exists]

/-- The number that a message gets, for both kinds of clients. -/
theorem receive_id {client : Client} {receivedEvent : Message}
    (hmsg : isUpdate message.command = true)
    (h : receive client message receivedEvent = some event) :
    event.clientRequestID = message.clientRequestID ∧ event.id = some
      (match client.scheme with
      | .mds => 0
      | .mdp => ((fromChars message.clientRequestID).map (·.1)).getD 0) := by
  unfold receive at h
  cases hscheme : client.scheme with
  | mdp =>
    rw [hscheme] at h
    simp only [handleMessage, hmsg, if_true] at h
    cases h
    exact ⟨rfl, rfl⟩
  | mds =>
    rw [hscheme] at h
    simp only [handleSubscriptionMessage, hmsg, if_true] at h
    cases h
    exact ⟨rfl, rfl⟩

theorem isUpdate_of_answers (h : Answers s (.receive message)) :
    isUpdate message.command = true := by
  rcases h with ⟨hc, -⟩ | ⟨hc, -⟩ <;> rw [hc] <;> rfl

/-- A message without an id is a NOTIFY; any other carries a number. -/
theorem clientRequestID_of_answers (h : Answers s (.receive message)) :
    message.clientRequestID = [] ∨ ∃ id : UInt64, message.clientRequestID = toDec id.toNat := by
  rcases h with ⟨-, hid⟩ | ⟨-, hid⟩
  · exact inr hid
  · exact hid

/-- What the message has to carry for the number it gets, where a request waits
under that number, is what `Undisturbed` says. -/
theorem carries_iff {client : Client} {receivedEvent : Message} (hanswers : Answers s (.receive message))
    (hreceive : receive client message receivedEvent = some event) (hid : event.id = some id) :
    (id ∈ s.requests → event.clientRequestID = toDec id.toNat) ↔ (0 ∈ s.requests →
      match client.scheme with
      | .mds => message.clientRequestID = toDec 0
      | .mdp => message.clientRequestID ≠ []) := by
  obtain ⟨hcarried, hnum⟩ := receive_id (isUpdate_of_answers hanswers) hreceive
  rw [hid] at hnum
  cases hnum
  rw [hcarried]
  cases client.scheme with
  | mds => exact Iff.rfl
  | mdp =>
    rcases clientRequestID_of_answers hanswers with hemp | ⟨id, hdec⟩
    · rw [hemp]
      exact imp_congr_right fun _ =>
        ⟨fun h => absurd h.symm (toDec_ne_nil _), fun h => absurd rfl h⟩
    · rw [hdec, fromChars_toDec]
      exact ⟨fun _ _ => toDec_ne_nil _, fun _ _ => rfl⟩

theorem replyCount_le_one (hs : Sound trace s) (n : Nat) : replyCount n trace ≤ 1 := by
  have := hs.once n
  split_ifs at this <;> omega

/-- The callback of the waiting request 0 is dropped by an UNSUBSCRIBE that has
a callback of its own. -/
theorem kept_request_iff (hs : Sound trace s) {cmd : ClientCommand}
    (h : step s (.request cmd) = some (s', out)) :
    (∀ n, Pending s n → Pending s' n ∨ ∃ message, reply n message ∈ out) ↔
      (cmd.callback = true → cmd.command = .unsubscribe → 0 ∉ s.requests) := by
  have hreq : request cmd s = (s', out) := some.inj h
  rcases request_cases cmd s with ⟨-, hc, heq⟩ | ⟨-, hc, _, -, heq⟩ | ⟨-, hc, _, -, heq⟩ |
    ⟨hcb, hc, heq⟩ | ⟨hother, heq⟩
  · cases hreq.symm.trans heq
    refine iff_of_true ?_ ?_
    · rintro n ⟨id, entry, hlook, rfl⟩
      refine inl ⟨id, entry, ?_, rfl⟩
      rw [lookup_tryEmplace]
      split_ifs with hid
      · rw [← hid, hlook, Option.getD_some]
      · exact hlook
    · rintro - hunsub
      rcases hc with hc | hc <;> cases hc.symm.trans hunsub
  · cases hreq.symm.trans heq
    exact iff_of_true (fun n => inl) fun _ hunsub => by cases hc.symm.trans hunsub
  · cases hreq.symm.trans heq
    exact iff_of_true (fun n => inl) fun _ hunsub => by cases hc.symm.trans hunsub
  · cases hreq.symm.trans heq
    constructor
    · intro hkept _ _ hzero
      obtain ⟨entry, hent⟩ := mem_requests.mp hzero
      rcases hkept entry.callback ⟨0, entry, hent, rfl⟩ with ⟨id, _, hlook, heq⟩ | hreply
      · obtain ⟨hne, hold⟩ := lookup_of_erase hlook
        exact hne (hs.id_unique hold hent heq)
      · obtain ⟨message, hmem⟩ := hreply
        simp [ClientCommand.send] at hmem
    · rintro hnone n ⟨id, entry, hlook, rfl⟩
      refine inl ⟨id, entry, ?_, rfl⟩
      rw [lookup_erase, if_neg, hlook]
      rintro rfl
      exact hnone hcb hc (mem_requests.mpr ⟨entry, hlook⟩)
  · cases hreq.symm.trans heq
    exact iff_of_true (fun n => inl) fun hcb hunsub =>
      absurd ⟨hcb, by simp [hunsub]⟩ hother

/-- A message takes a callback out of the table only to call it. -/
theorem kept_receive (h : step s (.receive message) = some (s', out))
    (n : Nat) (hn : Pending s n) : Pending s' n ∨ ∃ message, reply n message ∈ out := by
  obtain ⟨id, entry, hlook, rfl⟩ := hn
  obtain ⟨_, _, -, ⟨-, rfl, rfl⟩ | ⟨event, id', -, -, rfl, rfl⟩⟩ :=
    step_receive h
  · exact inl ⟨id, entry, hlook, rfl⟩
  · by_cases hid : id = id'
    · subst hid
      exact inr ⟨event, reply_mem_dispatched.mpr ⟨rfl, entry, hlook, rfl⟩⟩
    · refine inl ⟨id, entry, ?_, rfl⟩
      rw [lookup_erase, if_neg hid, hlook]

/-- A dispatched message carries the id of the request it is taken for exactly
if it carries the number it got. -/
theorem carried_receive_iff (hs : Sound trace s) :
    (∀ n message, reply n message ∈ updates s event ++ replies s id event →
      ∃ cmd id, (issued trace)[n]? = some (cmd, some id) ∧
        message.clientRequestID = toDec id.toNat) ↔
    (id ∈ s.requests → event.clientRequestID = toDec id.toNat) := by
  constructor
  · intro hcarried hmem
    obtain ⟨entry, hent⟩ := mem_requests.mp hmem
    obtain ⟨cmd, _, hissued, hdec⟩ :=
      hcarried entry.callback event (reply_mem_dispatched.mpr ⟨rfl, entry, hent, rfl⟩)
    obtain ⟨_, hsent⟩ := hs.sent id entry hent
    obtain rfl := some.inj (congrArg Prod.snd (some.inj (hissued.symm.trans hsent)))
    exact hdec
  · intro hdec n message hmem
    obtain ⟨rfl, entry, hent, rfl⟩ := reply_mem_dispatched.mp hmem
    obtain ⟨cmd, hsent⟩ := hs.sent id entry hent
    exact ⟨cmd, id, hsent, hdec (mem_requests.mpr ⟨entry, hent⟩)⟩

end

/-- Replies reach their own requests exactly as long as no command and no
message disturbs request 0. -/
theorem replies_own_iff {trace : List (Event × List Output)} {s s' : State} {e : Event}
    {out : List Output} (hrun : Run step Answers {} trace s) (hanswers : Answers s e)
    (hstep : step s e = some (s', out)) : OwnReplies trace s e s' out ↔ Undisturbed s e := by
  have hs := sound hrun
  have honce := replyCount_le_one (hs.keep hstep)
  cases e with
  | request cmd =>
    refine ⟨fun h => (kept_request_iff hs hstep).mp h.kept, fun h => ⟨honce, ?_, ?_⟩⟩
    · intro n message hmem
      have hreq : request cmd s = (s', out) := Option.some.inj hstep
      rcases request_cases cmd s with ⟨-, -, heq⟩ | ⟨-, -, _, -, heq⟩ | ⟨-, -, _, -, heq⟩ |
        ⟨-, -, heq⟩ | ⟨-, heq⟩ <;>
      · obtain ⟨-, rfl⟩ := Prod.mk.inj (heq.symm.trans hreq)
        simp [ClientCommand.send] at hmem
    · exact (kept_request_iff hs hstep).mpr h
  | poll client =>
    cases hstep
    exact iff_of_true ⟨honce, by simp, fun n => Or.inl⟩ trivial
  | receive message =>
    have hkept := kept_receive hstep
    obtain ⟨client, receivedEvent, hpolled, hcases⟩ := step_receive hstep
    have hundisturbed : Undisturbed s (.receive message) ↔ (0 ∈ s.requests →
        match client.scheme with
        | .mds => message.clientRequestID = toDec 0
        | .mdp => message.clientRequestID ≠ []) := by
      constructor
      · exact fun h => h client receivedEvent hpolled
      · intro h client' receivedEvent' hpolled'
        obtain ⟨rfl, rfl⟩ := Prod.mk.inj (Option.some.inj (hpolled.symm.trans hpolled'))
        exact h
    have hupdate := isUpdate_of_answers hanswers
    rcases hcases with ⟨hreceive, -, -⟩ | ⟨_, _, hreceive, hid, rfl, rfl⟩
    · unfold receive at hreceive
      cases hscheme : client.scheme <;> simp [hscheme, handleMessage, hupdate] at hreceive
    · rw [hundisturbed, ← carries_iff hanswers hreceive hid, ← carried_receive_iff hs]
      exact ⟨fun h => h.carried, fun h => ⟨honce, h, hkept⟩⟩

/-- A first request, to one server. -/
def firstGet : ClientCommand where
  command := .get
  topic :=
    { str := str "mdp://one:1/value"
      parts := { scheme := str "mdp", authority := str "one:1", path := str "/value" }
      parsed := by decide +kernel }
  callback := true

variable (client : Client)

/-- The state in which the request waits and `poll` reads the messages of a
client. -/
def awaiting : State :=
  { requests := tryEmplace ∅ 0 { uri := firstGet.topic, callback := 0 }
    requestId := 1
    issued := 1
    polled := some (client, {}) }

def awaitingTrace : List (Event × List Output) :=
  [(.request firstGet, [firstGet.send 0]), (.poll client, [])]

theorem awaiting_run : Run step Answers {} (awaitingTrace client) (awaiting client) := by
  have hreq : Run step Answers {} [(.request firstGet, [firstGet.send 0])]
      (request firstGet {}).1 := Run.nil.snoc trivial rfl
  exact hreq.snoc trivial rfl

/-- A notification that another server sends to a subscriber answers the
request. -/
theorem update_answers_first_request :
    let client : Client := { scheme := .mds, server := str "two:2" }
    let e : Event := .receive { command := .notify, sourceId := str "/news#" }
    ∃ s' out, Run step Answers {} (awaitingTrace client) (awaiting client) ∧
      Answers (awaiting client) e ∧ step (awaiting client) e = some (s', out) ∧
      ¬OwnReplies (awaitingTrace client) (awaiting client) e s' out := by
  refine ⟨_, _, awaiting_run _, Or.inr ⟨rfl, Or.inl rfl⟩, rfl, fun h => ?_⟩
  obtain ⟨_, _, -, hdec⟩ := h.carried 0 _ (mem_cons_self ..)
  exact toDec_ne_nil _ hdec.symm

theorem replies_own_iff_final :
    let client : Client := { scheme := .mdp, server := str "one:1" }
    let e : Event := .receive { command := .final, clientRequestID := toDec 0 }
    Undisturbed (awaiting client) e ∧ ∃ s' out, step (awaiting client) e = some (s', out) ∧
      OwnReplies (awaitingTrace client) (awaiting client) e s' out := by
  have hundisturbed : Undisturbed (awaiting { scheme := .mdp, server := str "one:1" })
      (.receive { command := .final, clientRequestID := toDec 0 }) := by
    intro client receivedEvent hpolled _
    cases hpolled
    exact toDec_ne_nil 0
  have hanswers : Answers (awaiting { scheme := .mdp, server := str "one:1" })
      (.receive { command := .final, clientRequestID := toDec 0 }) := Or.inl ⟨rfl, 0, rfl⟩
  exact ⟨hundisturbed, _, _, rfl, (replies_own_iff (awaiting_run _) hanswers rfl).mpr hundisturbed⟩

end OpenCmw.MdClient
