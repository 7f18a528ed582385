import OpenCmw.RingBuffer

/-!
# Settings with a history

`SettingBase` keeps the committed settings in the entries of a ring buffer,
between two sequences that also gate it: the head is the newest setting, and
the tail moves up behind it as soon as more than `N_HISTORY - BUFFER_MARGIN`
settings lie behind the head. Settings that are staged under a token wait in a
list until they are committed or retired.

This is single-threaded use: the locks are free whenever they are taken and
are left out. The time-outs are disabled, so `lastAccess`, which only they
read, is left out as well. Tokens are empty exactly if they are the null token,
like the empty text. A call with undefined behaviour has no result.
-/

namespace OpenCmw.Disruptor

/-- The entry that `operator[]` refers to is assigned. -/
def RingBuffer.write? {T σ : Type} {c : Size} (ring : RingBuffer T σ c) (sequence : Int)
    (event : T) : Option (RingBuffer T σ c) :=
  (entryIndex c sequence).bind fun i =>
    if h : i < c.size + 2 * rbPad then some { ring with entries := ring.entries.set i event h }
    else none

/-- `tryPublishEvent`. A translator that throws leaves the entry as it is, and
the sequence is published all the same; there is none without capacity. -/
def RingBuffer.tryPublishEvent {T : Type} {c : Size}
    (ring : RingBuffer T (MultiThreadedStrategy c) c) (gating : List Int)
    (translator : T → Option (Option T)) :
    Option (Option (Int × Bool) × RingBuffer T (MultiThreadedStrategy c) c) := do
  match ← ring.strategy.tryNext gating 1 with
  | (.error _, strategy) => return (none, { ring with strategy })
  | (.ok sequence, strategy) =>
    let event ← ring.at? sequence
    let translated ← translator event
    let ring ← match translated with
      | some event => ring.write? sequence event
      | none => some ring
    let strategy ← strategy.publish sequence
    return (some (sequence, translated.isSome), { ring with strategy })

end OpenCmw.Disruptor

namespace OpenCmw.Settings

open Disruptor

/-- `settings::node`. -/
structure Node (U : Type) where
  value : U
  validSince : Int
  deriving DecidableEq

structure SettingBase (U T κ : Type) (c : Size) where
  ring : RingBuffer (Node U) (MultiThreadedStrategy c) c
  sequenceHead : Int := initialCursorValue
  sequenceTail : Int := 0
  transactionList : List (κ × T) := []

/-- `std::out_of_range`, with what its message is formatted from. -/
inductive OutOfRange where
  /-- "index {} must be negative or zero" -/
  | positiveIndex (idx : Int64)
  /-- "no settings found for the given index {}" -/
  | noIndex (idx : Int64)
  /-- "no settings found for the given time stamp {}" -/
  | noTimeStamp (timeStamp : Int)
  deriving DecidableEq

def bufferMargin : Nat := 8

namespace SettingBase

variable {U T κ : Type} {c : Size}

/-! ## Reading -/

variable (s : SettingBase U T κ c)

def nHistory : Nat :=
  ((s.sequenceHead - s.sequenceTail + 1) % 2 ^ 64).toNat

/-- `get(idx)`. -/
def get (idx : Int64) : Option (Except OutOfRange (Node U)) := do
  if idx.toInt > 0 then return .error (.positiveIndex idx)
  let readIdx ← int64 (s.sequenceHead + idx.toInt)
  if readIdx < s.sequenceTail then return .error (.noIndex idx)
  let node ← s.ring.at? readIdx
  return .ok node

/-- The loop of `get(timeStamp)` at `lHead`, which ends at the tail. -/
def findSince (s : SettingBase U T κ c) (timeStamp : Int) : (rounds : Nat) → (lHead : Int) →
    Option (Node U)
  | rounds, lHead => do
    let node ← s.ring.at? lHead
    if node.validSince > timeStamp ∧ lHead ≠ s.sequenceTail then
      match rounds with
      | 0 => none
      | rounds + 1 => s.findSince timeStamp rounds (lHead - 1)
    else return node

/-- `get(timeStamp)`. -/
def getSince (timeStamp : Int) : Option (Except OutOfRange (Node U)) := do
  let node ← s.findSince timeStamp (s.sequenceHead - s.sequenceTail).toNat s.sequenceHead
  return if node.validSince > timeStamp then .error (.noTimeStamp timeStamp) else .ok node

def getPendingTransactions : List κ := s.transactionList.map (·.1)

/-! ## Committing -/

/-- The loop of `retireExpired` over the tail. -/
def retiredTail (c : Size) (head : Int) : (rounds : Nat) → (tail : Int) → Int
  | 0, tail => tail
  | rounds + 1, tail =>
    if tail ≠ head ∧ head - tail > ((c.size - bufferMargin : Nat) : Int) then
      retiredTail c head rounds (tail + 1)
    else tail

def retireExpired : SettingBase U T κ c :=
  { s with sequenceTail :=
      retiredTail c s.sequenceHead (s.sequenceHead - s.sequenceTail).toNat s.sequenceTail }

/-- What `stage` and `modifySetting` write: a value made of the one that `get()`
returns. -/
def renewed (update : U → U) (now : Int) : Option (Option (Node U)) := do
  match ← s.get 0 with
  | .ok oldValue => return some { value := update oldValue.value, validSince := now }
  | .error _ => return none

def publish (update : U → U) (now : Int) : Option (Bool × SettingBase U T κ c) := do
  let (published, ring) ←
    s.ring.tryPublishEvent [s.sequenceHead, s.sequenceTail] fun _ => s.renewed update now
  let s := { s with ring }
  match published with
  | none => return (false, s.retireExpired)
  | some (sequence, translated) =>
    let s := if translated then { s with sequenceHead := sequence } else s
    return (true, s.retireExpired)

def modifySetting (modFunction : U → U) (now : Int) :
    Option (Bool × SettingBase U T κ c) := s.publish modFunction now

section
variable [DecidableEq κ] [Inhabited κ] (onCommit : U → T → U)

def nullToken : κ := default

/-- A token in the list is given the new value. -/
def enter (list : List (κ × T)) (token : κ) (value : T) : List (κ × T) :=
  match list with
  | [] => [(token, value)]
  | (name, old) :: list =>
    if name = token then (name, value) :: list else (name, old) :: enter list token value

variable (s : SettingBase U T κ c)

/-- `stage`, with its `TransactionResult` as whether it is committed. -/
def stage (value : T) (token : κ) (now : Int) : Option (Bool × SettingBase U T κ c) :=
  if token = nullToken then s.publish (onCommit · value) now
  else
    some (false, { s with transactionList := enter s.transactionList token value }.retireExpired)

/-- `commit(value)`. -/
def commit (value : T) (now : Int) :
    Option (Bool × SettingBase U T κ c) := s.stage onCommit value nullToken now

/-- The predicate of `remove_if` in `commit(token)` and `retireStaged`. -/
def selects (token : κ) (setting : κ × T) : Bool := token = nullToken || setting.1 = token

/-- The `remove_if` of `commit(token)`: what it selects it commits, and the
rest stays. -/
def commitSelected (token : κ) (now : Int) : List (κ × T) → SettingBase U T κ c →
    Option ((List (κ × T) × Bool) × SettingBase U T κ c)
  | [], s => some (([], false), s)
  | setting :: list, s => do
    if selects token setting then
      let (_, s) ← s.commit onCommit setting.2 now
      let ((rest, _), s) ← commitSelected token now list s
      return ((rest, true), s)
    else
      let ((rest, submitted), s) ← commitSelected token now list s
      return ((setting :: rest, submitted), s)

/-- `commit(token)`. -/
def commitToken (token : κ) (now : Int) : Option (Bool × SettingBase U T κ c) := do
  let ((rest, submitted), s) ← commitSelected onCommit token now s.transactionList s
  return (submitted, { s with transactionList := rest })

def retireStaged (token : κ) : Bool × SettingBase U T κ c :=
  (s.transactionList.any (selects token),
    { s with transactionList := s.transactionList.filter fun setting => !selects token setting })

end

/-! ## Construction -/

/-- The constructor: the default setting is published before the sequences
gate the ring, which puts both where the cursor is. -/
def create (initial : U) (created : Int) : Option (SettingBase U T κ c) := do
  let ring : RingBuffer (Node U) (MultiThreadedStrategy c) c :=
    { entries := Vector.replicate _ { value := initial, validSince := created }, strategy := {} }
  let (_, ring) ← ring.tryPublishEvent [] fun node => some (some { node with value := initial })
  match addSequences [] ring.strategy.cursor 2 with
  | [sequenceHead, sequenceTail] => return { ring, sequenceHead, sequenceTail }
  | _ => none

end SettingBase

/-! ## Calls -/

inductive Call (U T κ : Type) where
  | stage (value : T) (token : κ) (now : Int)
  | commit (value : T) (now : Int)
  | commitToken (token : κ) (now : Int)
  | modifySetting (modFunction : U → U) (now : Int)
  | retireStaged (token : κ)
  | get (idx : Int64)
  | getSince (timeStamp : Int)
  | nHistory
  | getPendingTransactions

inductive Answer (U κ : Type) where
  /-- `TransactionResult`. -/
  | transaction (isCommitted : Bool) (timeStamp : Int)
  | done (result : Bool)
  | node (result : Except OutOfRange (Node U))
  | count (n : Nat)
  | tokens (tokens : List κ)

def SettingBase.step {U T κ : Type} {c : Size} [DecidableEq κ] [Inhabited κ] (onCommit : U → T → U)
    (s : SettingBase U T κ c) : Call U T κ → Option (SettingBase U T κ c × Answer U κ)
  | .stage value token now =>
    (s.stage onCommit value token now).map fun r => (r.2, .transaction r.1 now)
  | .commit value now => (s.commit onCommit value now).map fun r => (r.2, .transaction r.1 now)
  | .commitToken token now =>
    (s.commitToken onCommit token now).map fun r => (r.2, .transaction r.1 now)
  | .modifySetting modFunction now => (s.modifySetting modFunction now).map fun r => (r.2, .done r.1)
  | .retireStaged token => some ((s.retireStaged token).2, .done (s.retireStaged token).1)
  | .get idx => (s.get idx).map fun r => (s, .node r)
  | .getSince timeStamp => (s.getSince timeStamp).map fun r => (s, .node r)
  | .nHistory => some (s, .count s.nHistory)
  | .getPendingTransactions => some (s, .tokens s.getPendingTransactions)

end OpenCmw.Settings
