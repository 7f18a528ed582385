import OpenCmw.Machine
import OpenCmw.Message
import OpenCmw.PriorityFifo

/-!
# The request queue of a service

`Broker::Service` keeps the requests that no worker has taken yet in one FIFO
per RBAC role, with a separate count of them. `putMessage` files a request
under the role its token names, `takeNextMessage` serves the first role that
has any. `requestQueue_refines` is the statement for whole sequences of the
two, as `dispatch` uses them: the queue is a stable priority queue in the
order of the roles.

A token that is not of the form "RBAC=role,hash" has the *empty* role name.
The fallback to the last role is by name, so a role list that itself names an
empty role catches those tokens there (`malformed_token_served_first`).
-/

namespace OpenCmw

open PriorityFifo List

/-! ## Tokens -/

namespace ParseRbac

def rbacPrefix : Bytes := str "RBAC="

/-- `parse_rbac::role`. -/
def role (token : Bytes) : Bytes :=
  if startsWith token rbacPrefix then
    let token := token.drop rbacPrefix.length
    match find (str ",") token with
    | none => []
    | some commaPos => token.take commaPos
  else []

end ParseRbac

/-! ## The queue -/

/-- The members `requestsByPriority` and `requestCount` of `Service`. -/
structure RequestQueue where
  requestsByPriority : Queues Bytes BrokerMessage
  requestCount : Nat
  deriving DecidableEq

namespace RequestQueue

variable (roles : List Bytes)

/-- `makePriorityQueue`, for the names of the broker's roles. -/
def makePriorityQueue : Queues Bytes BrokerMessage :=
  if roles.isEmpty then [([], [])] else roles.map fun name => (name, [])

def empty : RequestQueue := ⟨makePriorityQueue roles, 0⟩

variable (q : RequestQueue)

/-- The index of the queue that `queueForRole` refers to. -/
def queueForRole (role : Bytes) : Nat :=
  (q.requestsByPriority.findIdx? fun v => v.1 == role).getD (q.requestsByPriority.length - 1)

def putMessage (message : BrokerMessage) : RequestQueue :=
  let role := ParseRbac.role message.rbac
  ⟨enqueueAt q.requestsByPriority (q.queueForRole role) message, q.requestCount + 1⟩

/-- `none` is the failing assertion. -/
def takeNextMessage : Option (BrokerMessage × RequestQueue) :=
  (dequeue q.requestsByPriority).map fun r => (r.1, ⟨r.2, q.requestCount - 1⟩)

/-- One call, a take being made only when `requestCount > 0`. -/
def serve : Op BrokerMessage → Option (RequestQueue × List BrokerMessage)
  | .put message => some (q.putMessage message, [])
  | .take =>
    if q.requestCount > 0 then q.takeNextMessage.map fun r => (r.2, [r.1]) else some (q, [])

/-! ## Priorities -/

/-- The position of a request's role in the list of roles, the last one if
the name in its token is none of them. -/
def priority (message : BrokerMessage) : Nat :=
  (roles.findIdx? fun name => name == ParseRbac.role message.rbac).getD (roles.length - 1)

/-- The role queues of a broker, whatever they hold. -/
def HasRoles : Prop :=
  q.requestsByPriority.map (·.1) = (makePriorityQueue roles).map (·.1)

theorem hasRoles_empty (roles : List Bytes) : HasRoles roles (empty roles) := rfl

variable {roles : List Bytes} {q : RequestQueue}

theorem HasRoles.put (h : HasRoles roles q)
    (message : BrokerMessage) : HasRoles roles (q.putMessage message) := by
  rw [HasRoles, ← h]
  refine ext_getElem? fun i => ?_
  simp only [putMessage, enqueueAt, getElem?_map, getElem?_modify]
  cases hv : q.requestsByPriority[i]? with
  | none => rfl
  | some v =>
    by_cases hi : q.queueForRole (ParseRbac.role message.rbac) = i
    · simp [hi]
    · simp [hi]

theorem HasRoles.take {q q' : RequestQueue} {message : BrokerMessage}
    (h : HasRoles roles q) (ht : q.takeNextMessage = some (message, q')) : HasRoles roles q' := by
  obtain ⟨⟨a, r⟩, hd, heq⟩ := Option.map_eq_some_iff.mp ht
  cases heq
  obtain ⟨_, k, _, _, hq, hr, -⟩ := dequeue_eq_some hd
  rw [HasRoles, ← h, hq]
  rw [hr]
  simp

theorem HasRoles.length_pos (h : HasRoles roles q) : 0 < q.requestsByPriority.length := by
  have hlen := congrArg length h
  rw [length_map, length_map] at hlen
  rw [hlen, makePriorityQueue]
  split_ifs with hr
  · exact Nat.one_pos
  · rw [length_map]
    exact length_pos_iff.mpr fun h => hr (isEmpty_iff.mpr h)

/-- A request is filed under its priority. -/
theorem HasRoles.queueForRole_eq (h : HasRoles roles q) (message : BrokerMessage) :
    q.queueForRole (ParseRbac.role message.rbac) = priority roles message := by
  have hfind : (q.requestsByPriority.findIdx? fun v => v.1 == ParseRbac.role message.rbac) =
      ((makePriorityQueue roles).map (·.1)).findIdx? (· == ParseRbac.role message.rbac) := by
    rw [← h, findIdx?_map]
    rfl
  have hlen : q.requestsByPriority.length = ((makePriorityQueue roles).map (·.1)).length := by
    rw [← h, length_map]
  rw [queueForRole, hfind, hlen, priority, makePriorityQueue]
  split_ifs with hr
  · rw [isEmpty_iff.mp hr]
    cases hrole : ([] : Bytes) == ParseRbac.role message.rbac <;> simp [findIdx?_cons, hrole]
  · simp [map_map, Function.comp_def]

theorem queueForRole_lt (h : 0 < q.requestsByPriority.length) (role : Bytes) :
    q.queueForRole role < q.requestsByPriority.length := by
  unfold queueForRole
  cases hfind : q.requestsByPriority.findIdx? (fun v => v.1 == role) with
  | none => rw [Option.getD_none]; omega
  | some i =>
    rw [Option.getD_some]
    exact (findIdx?_eq_some_iff_getElem.mp hfind).1

/-! ## Refinement -/

/-- The queue with roles `roles` holds the requests `queued`. -/
structure Represents (roles : List Bytes) (queued : List BrokerMessage) (q : RequestQueue) :
    Prop where
  roles_eq : HasRoles roles q
  holds : Holds (priority roles) queued q.requestsByPriority
  count_eq : q.requestCount = queued.length

variable {roles : List Bytes} {queued : List BrokerMessage} {q : RequestQueue}

theorem represents_empty (roles : List Bytes) : Represents roles [] (empty roles) := by
  refine ⟨hasRoles_empty roles, ⟨by simp, fun i e he => ?_⟩, rfl⟩
  have hmem := mem_of_getElem? he
  have hnil : e.2 = [] := by
    unfold empty makePriorityQueue at hmem
    split_ifs at hmem with hr
    · rw [mem_singleton.mp hmem]
    · obtain ⟨_, -, rfl⟩ := mem_map.mp hmem
      rfl
  rw [hnil, filter_nil]

variable (h : Represents roles queued q)
include h

theorem Represents.put (message : BrokerMessage) :
    Represents roles (queued ++ [message]) (q.putMessage message) := by
  refine ⟨h.roles_eq.put message, ?_, by simp [putMessage, h.count_eq]⟩
  have hlt := queueForRole_lt h.roles_eq.length_pos (ParseRbac.role message.rbac)
  dsimp only [putMessage]
  rw [h.roles_eq.queueForRole_eq] at hlt ⊢
  exact h.holds.enqueueAt hlt

theorem Represents.take_of_eq {message : BrokerMessage}
    {q' : RequestQueue} (ht : q.takeNextMessage = some (message, q')) :
    ∃ rest, IsNext (priority roles) queued message rest ∧ Represents roles rest q' := by
  have hroles := h.roles_eq.take ht
  obtain ⟨⟨a, r⟩, hd, heq⟩ := Option.map_eq_some_iff.mp ht
  cases heq
  obtain ⟨rest, hnext, hholds⟩ := h.holds.dequeue hd
  refine ⟨rest, hnext, hroles, hholds, ?_⟩
  have hlen := hnext.perm.length_eq
  rw [length_cons] at hlen
  rw [h.count_eq, hlen, Nat.add_sub_cancel]

/-- Where the count is positive the assertion holds. -/
theorem Represents.exists_take (hpos : 0 < q.requestCount) :
    ∃ message q', q.takeNextMessage = some (message, q') := by
  have hne : queued ≠ [] := by
    rintro rfl
    rw [h.count_eq] at hpos
    exact absurd hpos (Nat.lt_irrefl 0)
  obtain ⟨r, hr⟩ := Option.ne_none_iff_exists'.mp (h.holds.dequeue_ne_none hne)
  exact ⟨r.1, ⟨r.2, q.requestCount - 1⟩, by rw [takeNextMessage, hr]; rfl⟩

omit h

/-- Every sequence of calls is served as by a stable priority queue: the
assertion never fails, the count is the length of the role queues, each take
returns the request put earliest among those of the highest priority, and
what was put is what was taken and what is still queued. -/
theorem requestQueue_refines (roles : List Bytes) (ops : List (Op BrokerMessage)) :
    ∃ trace q queued, exec serve (fun _ _ => True) (empty roles) ops = some (trace, q) ∧
      StableRun (priority roles) ops (trace.flatMap (·.2)) queued ∧
      q.requestCount = (q.requestsByPriority.map fun v => v.2.length).sum ∧
      (ops.filterMap Op.put?).Perm (trace.flatMap (·.2) ++ queued) := by
  suffices hrun : ∃ trace q queued,
      exec serve (fun _ _ => True) (empty roles) ops = some (trace, q) ∧
      StableRun (priority roles) ops (trace.flatMap (·.2)) queued ∧
      Represents roles queued q by
    obtain ⟨trace, q, queued, hexec, hstable, hrep⟩ := hrun
    exact ⟨trace, q, queued, hexec, hstable,
      hrep.count_eq.trans hrep.holds.sum_length.symm, hstable.perm⟩
  induction ops using List.reverseRecOn with
  | nil => exact ⟨[], empty roles, [], rfl, .nil, represents_empty roles⟩
  | append_singleton ops op ih =>
    obtain ⟨trace, q, queued, hexec, hstable, hrep⟩ := ih
    cases op with
    | put message =>
      refine ⟨_, _, _, exec_snoc hexec trivial rfl, ?_, hrep.put message⟩
      rw [flatMap_append]
      simpa using hstable.put message
    | take =>
      by_cases hpos : 0 < q.requestCount
      · obtain ⟨message, q', htake⟩ := hrep.exists_take hpos
        obtain ⟨rest, hnext, hrep'⟩ := hrep.take_of_eq htake
        have hserve : q.serve .take = some (q', [message]) := by
          rw [serve, if_pos hpos, htake]
          rfl
        refine ⟨_, _, rest, exec_snoc hexec trivial hserve, ?_, hrep'⟩
        rw [flatMap_append]
        simpa using hstable.take hnext
      · have hserve : q.serve .take = some (q, []) := by rw [serve, if_neg hpos]
        have hnil : queued = [] := by
          refine length_eq_zero_iff.mp ?_
          rw [← hrep.count_eq]
          omega
        subst hnil
        refine ⟨_, _, _, exec_snoc hexec trivial hserve, ?_, hrep⟩
        rw [flatMap_append]
        simpa using hstable.takeEmpty

/-- With an empty role in front of "ADMIN", a request without a token that
comes after one of an administrator is served before it. -/
theorem malformed_token_served_first :
    let roles := [str "", str "ADMIN"]
    let admin : BrokerMessage := { rbac := str "RBAC=ADMIN,abcdef" }
    let malformed : BrokerMessage := { rbac := str "nonsense" }
    (exec serve (fun _ _ => True) (empty roles) [.put admin, .put malformed, .take]).map
      (fun r => r.1.flatMap (·.2)) = some [malformed] := by
  decide +kernel

end RequestQueue

end OpenCmw
