import OpenCmw.SettingBase

/-!
# A bounded history with transactions

`History` is what a setting with history is for: the committed settings, the
newest first and at most `limit` of them, and the staged ones in the order of
their staging, each under its own token. `SettingBase` with `N_HISTORY` slots
behaves like a history of `N_HISTORY - 7` settings, call by call (`Represents`),
as long as its ring can be addressed.

The slot of a new setting is the one behind the head. The settings that are in
the history lie less than a lap before it, so none of them is overwritten, and
the tail, which gates the ring, leaves room for it.
-/

namespace OpenCmw.Settings

open SettingBase Nat Int
open List
open Option (bind_some bind_eq_bind)
open Disruptor

/-! ## The history -/

structure History (U T κ : Type) (limit : Nat) where
  /-- The newest first. -/
  entries : List (Node U)
  pending : List (κ × T)
  nonempty : entries ≠ []
  bounded : entries.length ≤ limit
  unique : (pending.map (·.1)).Nodup

namespace History

variable {U T κ : Type} {limit : Nat}

def start (hlimit : 0 < limit) (initial : U) (created : Int) : History U T κ limit where
  entries := [{ value := initial, validSince := created }]
  pending := []
  nonempty := cons_ne_nil _ _
  bounded := hlimit
  unique := List.nodup_nil

variable (h : History U T κ limit)

def newest : Node U := h.entries.head h.nonempty

theorem limit_pos (h : History U T κ limit) : 0 < limit :=
  (length_pos_iff.mpr h.nonempty).trans_le h.bounded

/-- A setting made of the newest one is committed. -/
def append (update : U → U) (now : Int) : History U T κ limit where
  entries := ({ value := update h.newest.value, validSince := now } :: h.entries).take limit
  pending := h.pending
  nonempty := by
    rw [Ne, List.take_eq_nil_iff, not_or]
    exact ⟨h.limit_pos.ne', cons_ne_nil _ _⟩
  bounded := List.length_take_le ..
  unique := h.unique

def get (idx : Int64) : Except OutOfRange (Node U) :=
  if idx.toInt > 0 then .error (.positiveIndex idx)
  else match h.entries[(-idx.toInt).toNat]? with
    | some node => .ok node
    | none => .error (.noIndex idx)

/-- The newest setting that was valid at the time. -/
def getSince (timeStamp : Int) : Except OutOfRange (Node U) :=
  match h.entries.find? fun node => node.validSince ≤ timeStamp with
  | some node => .ok node
  | none => .error (.noTimeStamp timeStamp)

section
variable [DecidableEq κ] [Inhabited κ] (onCommit : U → T → U)

/-- The value of a token is replaced where it stands, or comes last. -/
def enterPending (pending : List (κ × T)) (token : κ) (value : T) : List (κ × T) :=
  if token ∈ pending.map (·.1) then
    pending.map fun p => if p.1 = token then (p.1, value) else p
  else pending ++ [(token, value)]

omit [Inhabited κ] in
theorem nodup_enterPending {pending : List (κ × T)} (h : (pending.map (·.1)).Nodup) (token : κ)
    (value : T) : ((enterPending pending token value).map (·.1)).Nodup := by
  unfold enterPending
  split_ifs with hmem
  · have hnames : (pending.map fun p => if p.1 = token then (p.1, value) else p).map (·.1) =
        pending.map (·.1) := by
      rw [map_map]
      refine map_congr_left fun p _ => ?_
      simp only [Function.comp_apply]
      split_ifs <;> rfl
    rwa [hnames]
  · rw [map_append, map_singleton]
    exact nodup_append.mpr ⟨h, nodup_singleton _, fun a ha b hb heq => hmem <| by
      obtain rfl := mem_singleton.mp hb
      rwa [← heq]⟩

variable (h : History U T κ limit)

def stage (value : T) (token : κ) (now : Int) : Bool × History U T κ limit :=
  if token = default then (true, h.append (onCommit · value) now)
  else (false, { h with
      pending := enterPending h.pending token value
      unique := nodup_enterPending h.unique token value })

/-- The pending entries with the token, all of them for the null token. -/
def selected (token : κ) : List (κ × T) :=
  h.pending.filter fun p => token = default ∨ p.1 = token

/-- The others. -/
def retire (token : κ) : History U T κ limit :=
  { h with
    pending := h.pending.filter fun p => ¬(token = default ∨ p.1 = token)
    unique := h.unique.sublist (filter_sublist.map _) }

def commitAll (values : List T) (now : Int) : History U T κ limit :=
  values.foldl (fun h value => h.append (onCommit · value) now) h

def commitToken (token : κ) (now : Int) : Bool × History U T κ limit :=
  (!(h.selected token).isEmpty,
    (h.commitAll onCommit ((h.selected token).map (·.2)) now).retire token)

/-- What the calls mean. -/
def step : Call U T κ → History U T κ limit × Answer U κ
  | .stage value token now =>
    ((h.stage onCommit value token now).2, .transaction (h.stage onCommit value token now).1 now)
  | .commit value now => (h.append (onCommit · value) now, .transaction true now)
  | .commitToken token now =>
    ((h.commitToken onCommit token now).2, .transaction (h.commitToken onCommit token now).1 now)
  | .modifySetting modFunction now => (h.append modFunction now, .done true)
  | .retireStaged token => (h.retire token, .done (!(h.selected token).isEmpty))
  | .get idx => (h, .node (h.get idx))
  | .getSince timeStamp => (h, .node (h.getSince timeStamp))
  | .nHistory => (h, .count h.entries.length)
  | .getPendingTransactions => (h, .tokens (h.pending.map (·.1)))

/-- How many settings a call commits. -/
def commits : Call U T κ → Nat
  | .stage _ token _ => if token = default then 1 else 0
  | .commit _ _ | .modifySetting _ _ => 1
  | .commitToken token _ => (h.selected token).length
  | _ => 0

/-- The answers to a list of calls, and how many settings they commit. -/
def run : History U T κ limit → List (Call U T κ) → List (Answer U κ)
  | _, [] => []
  | h, call :: calls => (h.step onCommit call).2 :: run (h.step onCommit call).1 calls

def runCommits : History U T κ limit → List (Call U T κ) → Nat
  | _, [] => 0
  | h, call :: calls => h.commits call + runCommits (h.step onCommit call).1 calls

end

end History

/-- The answers of the code to a list of calls. -/
def SettingBase.run {U T κ : Type} {c : Size} [DecidableEq κ] [Inhabited κ] (onCommit : U → T → U) :
    SettingBase U T κ c → List (Call U T κ) → Option (List (Answer U κ))
  | _, [] => some []
  | s, call :: calls => do
    let (s, answer) ← s.step onCommit call
    let answers ← SettingBase.run onCommit s calls
    return answer :: answers

/-! ## The ring below `top` -/

section Ring

variable {T : Type} {c : Size} {top : Int}

/-- Each sequence number below `top` has its entry and its mark. -/
structure Addressed (c : Size) (top : Int) : Prop where
  entry : ∀ n : Nat, (n : Int) < top → entryIndex c n = some (rbPad + n % c.size)
  marks : Addressing c top

theorem addressed_of_shift_le (h : c.indexShift ≤ 30) : Addressed c (2 ^ 63) where
  entry n _ := entryIndex_of_shift_le h n
  marks := addressing_of_shift_le (by omega)

theorem addressed_of_le_shift (h : 31 ≤ c.indexShift) : Addressed c (2 ^ 31 - 16) where
  entry := by
    intro n hn
    have hsize := le_size_of_le_shift h
    rw [entryIndex_of_lt h (by omega), mod_eq_of_lt (by omega)]
  marks := (addressing_of_le_shift h).mono (by omega)

theorem slot_lt (c : Size) (n : Nat) : rbPad + n % c.size < c.size + 2 * rbPad := by
  have := mod_lt n c.size_pos
  omega

theorem at?_eq {σ : Type} (ha : Addressed c top) (ring : RingBuffer T σ c) {n : Nat}
    (hn : (n : Int) < top) : ring.at? n = some (ring.entries.get ⟨_, slot_lt c n⟩) := by
  rw [RingBuffer.at?, ha.entry n hn, bind_some, Vector.getElem?_eq_getElem (slot_lt c n)]
  rfl

/-- Writing an entry leaves those of the lap before it alone. -/
theorem write?_eq {σ : Type} (ha : Addressed c top) (ring : RingBuffer T σ c) {n : Nat}
    (hn : (n : Int) < top) (event : T) :
    ∃ ring', ring.write? n event = some ring' ∧ ring'.strategy = ring.strategy ∧
      ring'.at? n = some event ∧ ∀ m : Nat, m < n → n < m + c.size → ring'.at? m = ring.at? m := by
  refine ⟨{ ring with entries := ring.entries.set (rbPad + n % c.size) event (slot_lt c n) },
    ?_, rfl, ?_, fun m hm hlap => ?_⟩
  · rw [RingBuffer.write?, ha.entry n hn, bind_some, dif_pos (slot_lt c n)]
  · rw [RingBuffer.at?, ha.entry n hn, bind_some]
    exact Vector.getElem?_set_self (slot_lt c n)
  · have hne : rbPad + n % c.size ≠ rbPad + m % c.size := by
      intro heq
      have hdvd : c.size ∣ n - m := (modEq_iff_dvd' hm.le).mp (add_left_cancel heq.symm)
      have hle := le_of_dvd (by omega) hdvd
      omega
    rw [RingBuffer.at?, RingBuffer.at?, ha.entry m (by omega), bind_some, bind_some]
    exact Vector.getElem?_set_ne (slot_lt c n) hne

/-- A claim for which there is room. -/
theorem tryNext_ok (strategy : MultiThreadedStrategy c) (gating : List Int)
    (hint : int64 (strategy.cursor + 1) = some (strategy.cursor + 1))
    (hroom : strategy.cursor + 1 - c.size ≤ getMinimumSequence gating strategy.cursor) :
    ∃ cache, strategy.tryNext gating 1 = some (.ok (strategy.cursor + 1),
        { strategy with cursor := strategy.cursor + 1, gatingSequenceCache := cache }) ∧
      (cache = strategy.gatingSequenceCache ∨
        cache = getMinimumSequence gating strategy.cursor) := by
  rw [MultiThreadedStrategy.tryNext_eq, roomFor, hint, Option.map_some, Option.map_some]
  split_ifs with hlook
  · rw [decide_eq_true hroom]
    exact ⟨_, rfl, Or.inr rfl⟩
  · exact ⟨_, rfl, Or.inl rfl⟩

/-- An event is written into its entry, and the strategy has claimed and
published it. -/
theorem tryPublishEvent_eq (ha : Addressed c top) (htop : top ≤ 2 ^ 63)
    {ring : RingBuffer T (MultiThreadedStrategy c) c} {gating : List Int} {n : Nat}
    (hcur : ring.strategy.cursor + 1 = n) (hn : (n : Int) < top)
    (hroom : (n : Int) - c.size ≤ getMinimumSequence gating ring.strategy.cursor)
    {translator : T → Option (Option T)} {event : T}
    (htranslator : ∀ old, ring.at? n = some old → translator old = some (some event)) :
    ∃ ring', ring.tryPublishEvent gating translator = some (some ((n : Int), true), ring') ∧
      ring'.strategy.cursor = n ∧
      (ring'.strategy.gatingSequenceCache = ring.strategy.gatingSequenceCache ∨
        ring'.strategy.gatingSequenceCache = getMinimumSequence gating ring.strategy.cursor) ∧
      ring'.at? n = some event ∧ ∀ m : Nat, m < n → n < m + c.size → ring'.at? m = ring.at? m := by
  obtain ⟨cache, hclaim, hcache⟩ := tryNext_ok ring.strategy gating
    (by rw [hcur]; exact int64_of_lt (by omega) (by omega)) (by rw [hcur]; exact hroom)
  rw [hcur] at hclaim
  obtain ⟨ring', hwrite, -, hself, hother⟩ := write?_eq ha ring hn event
  obtain ⟨strategy, hpub, hcur', hcache', -, -⟩ := setAvailable_eq
    (s := { ring.strategy with cursor := (n : Int), gatingSequenceCache := cache }) ha.marks
    (by omega) hn
  have hat := at?_eq ha ring hn
  refine ⟨{ ring' with strategy }, ?_, hcur', ?_, hself, hother⟩
  · rw [RingBuffer.tryPublishEvent, hclaim]
    simp only [bind_eq_bind, bind_some, hat, htranslator _ hat, hwrite, hpub]
    rfl
  · rcases hcache with h | h
    · exact Or.inl (hcache'.trans h)
    · exact Or.inr (hcache'.trans h)

end Ring

/-! ## Representation -/

section Represents

variable {U T κ : Type} {c : Size} {top : Int}

/-- The settings between tail and head are those of the history. -/
structure Represents (s : SettingBase U T κ c) (h : History U T κ (c.size - 7)) : Prop where
  cursor : s.ring.strategy.cursor = s.sequenceHead
  tail_nonneg : 0 ≤ s.sequenceTail
  cache_le : s.ring.strategy.gatingSequenceCache ≤ s.sequenceTail
  length : s.sequenceHead - s.sequenceTail + 1 = h.entries.length
  entry : ∀ (k : Nat) node, h.entries[k]? = some node → s.ring.at? (s.sequenceHead - k) = some node
  pending : s.transactionList = h.pending

variable {s : SettingBase U T κ c} {h : History U T κ (c.size - 7)}

variable (hr : Represents s h)
include hr

theorem Represents.tail_le : s.sequenceTail ≤ s.sequenceHead := by
  have hlen := hr.length
  have hpos := length_pos_iff.mpr h.nonempty
  omega

theorem Represents.minimum :
    getMinimumSequence [s.sequenceHead, s.sequenceTail] s.ring.strategy.cursor =
      s.sequenceTail := by
  have htail := hr.tail_le
  rw [hr.cursor]
  show min _ (min _ _) = _
  omega

omit hr

/-- The loop of `retireExpired` stops where at most `N_HISTORY - 8` settings
lie behind the head. -/
theorem retiredTail_eq {head : Int} : ∀ {rounds : Nat} {tail : Int}, head - tail = rounds →
    retiredTail c head rounds tail = max tail (head - ((c.size - bufferMargin : Nat) : Int))
  | 0, tail, hrnds => by
    rw [retiredTail]
    omega
  | rounds + 1, tail, hrnds => by
    rw [retiredTail]
    split_ifs with hfull
    · rw [retiredTail_eq (by push_cast at hrnds; omega)]
      omega
    · push_cast at hrnds
      omega

theorem Represents.get_eq (hr : Represents s h) (hhead : s.sequenceHead < 2 ^ 63) (idx : Int64) :
    s.get idx = some (h.get idx) := by
  have htail := hr.tail_le
  have hnonneg := hr.tail_nonneg
  have hlen := hr.length
  have hmin : -2 ^ 63 ≤ idx.toInt := Int64.le_toInt idx
  unfold SettingBase.get History.get
  split_ifs with hpositive
  · rfl
  · have hint : int64 (s.sequenceHead + idx.toInt) = some (s.sequenceHead + idx.toInt) :=
      if_pos ⟨by omega, by omega⟩
    rw [hint]
    simp only [bind_eq_bind, bind_some]
    cases hnode : h.entries[(-idx.toInt).toNat]? with
    | none =>
      have hle := List.getElem?_eq_none_iff.mp hnode
      rw [if_pos (by omega)]
      rfl
    | some node =>
      have hlt := (List.getElem?_eq_some_iff.mp hnode).1
      have hread := hr.entry _ node hnode
      have hsame : s.sequenceHead - ((-idx.toInt).toNat : Int) = s.sequenceHead + idx.toInt := by
        omega
      rw [hsame] at hread
      rw [if_neg (by omega), hread]
      rfl

theorem History.get_zero {limit : Nat} (h : History U T κ limit) : h.get 0 = .ok h.newest := by
  have hhead : h.entries[0]? = some h.newest := by
    rw [History.newest, head_eq_getElem, getElem?_eq_getElem]
  show (match h.entries[0]? with
    | some node => Except.ok node
    | none => .error (OutOfRange.noIndex 0)) = _
  rw [hhead]

include hr

/-- The loop of `get(timeStamp)` ends at the newest setting that was valid at the
time, or at the oldest. -/
theorem Represents.findSince_eq (timeStamp : Int) :
    ∀ {rest : List (Node U)} {k : Nat} {node : Node U}, h.entries.drop k = node :: rest →
      s.findSince timeStamp rest.length (s.sequenceHead - k) =
        some (((node :: rest).find? fun node => node.validSince ≤ timeStamp).getD
          ((node :: rest).getLast (cons_ne_nil _ _))) := by
  intro rest
  induction rest with
  | nil =>
    intro k node hdrop
    have hlen := congrArg List.length hdrop
    rw [length_drop, length_singleton] at hlen
    have htail : s.sequenceHead - k = s.sequenceTail := by
      have := hr.length
      omega
    have hnode := hr.entry k node (by rw [← head?_drop, hdrop]; rfl)
    unfold findSince
    rw [hnode]
    simp only [bind_eq_bind, bind_some]
    rw [if_neg fun hlater => hlater.2 htail]
    by_cases hvalid : node.validSince ≤ timeStamp <;> simp [hvalid]
  | cons older rest ih =>
    intro k node hdrop
    have hlen := congrArg List.length hdrop
    rw [length_drop, length_cons, length_cons] at hlen
    have htail : s.sequenceHead - k ≠ s.sequenceTail := by
      have := hr.length
      omega
    have hnode := hr.entry k node (by rw [← head?_drop, hdrop]; rfl)
    unfold findSince
    rw [hnode]
    simp only [bind_eq_bind, bind_some]
    by_cases hvalid : node.validSince ≤ timeStamp
    · rw [if_neg fun hlater => not_lt.mpr hvalid hlater.1, List.find?_cons_of_pos (by simpa)]
      rfl
    · have hnext : h.entries.drop (k + 1) = older :: rest := by
        rw [← drop_drop, hdrop]
        rfl
      have hstep : s.sequenceHead - (k : Int) - 1 = s.sequenceHead - (k + 1 : Nat) := by omega
      rw [if_pos ⟨not_le.mp hvalid, htail⟩, List.find?_cons_of_neg (by simpa using hvalid),
        getLast_cons (cons_ne_nil _ _)]
      rw [hstep]
      exact ih hnext

theorem Represents.getSince_eq (timeStamp : Int) : s.getSince timeStamp = some (h.getSince timeStamp) := by
  obtain ⟨node, rest, hents⟩ := List.exists_cons_of_ne_nil h.nonempty
  have hrnds : (s.sequenceHead - s.sequenceTail).toNat = rest.length := by
    have hlen := hr.length
    rw [hents, length_cons] at hlen
    omega
  have hfound := hr.findSince_eq timeStamp (show h.entries.drop 0 = node :: rest from hents)
  rw [Int.natCast_zero, sub_zero] at hfound
  unfold SettingBase.getSince History.getSince
  rw [hrnds, hfound, hents]
  simp only [bind_eq_bind, bind_some]
  cases hfind : (node :: rest).find? fun node => node.validSince ≤ timeStamp with
  | none =>
    have hlast := List.find?_eq_none.mp hfind _ (List.getLast_mem (cons_ne_nil node rest))
    rw [Option.getD_none, if_pos (by simpa using hlast)]
    rfl
  | some found =>
    have hvalid := List.find?_some hfind
    rw [Option.getD_some, if_neg (by simpa using hvalid)]
    rfl

omit hr

/-- A setting is committed: it is the newest one, and the oldest goes if there
are too many. -/
theorem Represents.publish (ha : Addressed c top) (htop : top ≤ 2 ^ 63) (hc : 8 < c.size)
    (hr : Represents s h) (hhead : s.sequenceHead + 1 < top) (update : U → U) (now : Int) :
    ∃ s', s.publish update now = some (true, s') ∧ Represents s' (h.append update now) ∧
      s'.sequenceHead = s.sequenceHead + 1 := by
  have hnonneg := hr.tail_nonneg
  have hlen := hr.length
  have hbounded := h.bounded
  obtain ⟨n, hn⟩ := eq_ofNat_of_zero_le (show 0 ≤ s.sequenceHead + 1 by omega)
  have hrenewed : s.renewed update now =
      some (some { value := update h.newest.value, validSince := now }) := by
    rw [SettingBase.renewed, hr.get_eq (by omega), h.get_zero]
    rfl
  have hroom : (n : Int) - c.size ≤
      getMinimumSequence [s.sequenceHead, s.sequenceTail] s.ring.strategy.cursor := by
    rw [hr.minimum]
    omega
  obtain ⟨ring, hring, hcur, hcache, hself, hother⟩ := tryPublishEvent_eq ha htop
    (by rw [hr.cursor, hn]) (by omega) hroom fun _ _ => hrenewed
  refine ⟨{ s with
      ring, sequenceHead := n
      sequenceTail := max s.sequenceTail (n - ((c.size - bufferMargin : Nat) : Int)) },
    ?_, ⟨hcur, le_max_of_le_left hnonneg, ?_, ?_, ?_, hr.pending⟩, hn.symm⟩
  · unfold SettingBase.publish
    rw [hring]
    simp only [bind_eq_bind, bind_some, if_true, SettingBase.retireExpired]
    rw [retiredTail_eq (by omega)]
    rfl
  · have hle := hr.cache_le
    refine le_max_of_le_left ?_
    rcases hcache with hcache | hcache
    · rwa [hcache]
    · rw [hcache, hr.minimum]
  · simp only [History.append, List.length_take, length_cons, bufferMargin]
    omega
  · intro k node hk
    simp only [History.append, List.getElem?_take] at hk
    split_ifs at hk with hlimit
    cases k with
    | zero =>
      cases hk
      rw [Int.natCast_zero, sub_zero]
      exact hself
    | succ k =>
      rw [List.getElem?_cons_succ] at hk
      have hlt := (List.getElem?_eq_some_iff.mp hk).1
      have hold := hr.entry k node hk
      obtain ⟨m, hm⟩ := eq_ofNat_of_zero_le (show 0 ≤ s.sequenceHead - k by omega)
      have hsame : (n : Int) - (k + 1 : Nat) = m := by omega
      rw [hsame, hother m (by omega) (by omega), ← hm]
      exact hold

include hr

/-- Only the staged settings are changed. -/
theorem Represents.withPending (pending : List (κ × T)) (hunique : (pending.map (·.1)).Nodup) :
    Represents { s with transactionList := pending } { h with pending, unique := hunique } :=
  { hr with pending := rfl }

theorem Represents.nHistory_eq (hhead : s.sequenceHead < 2 ^ 63) :
    s.nHistory = h.entries.length := by
  have hnonneg := hr.tail_nonneg
  have hlen := hr.length
  rw [nHistory, emod_eq_of_lt (by omega) (by omega)]
  omega

theorem Represents.retireExpired : s.retireExpired = s := by
  have htail := hr.tail_le
  have hlen := hr.length
  have hbounded := h.bounded
  rw [SettingBase.retireExpired, retiredTail_eq (by omega), max_eq_left]
  unfold bufferMargin
  omega

omit hr

section
variable [DecidableEq κ]

theorem enter_of_notMem {token : κ} (value : T) : ∀ {list : List (κ × T)},
    token ∉ list.map (·.1) → enter list token value = list ++ [(token, value)]
  | [], _ => rfl
  | p :: list, hnot => by
    rw [map_cons, mem_cons, not_or] at hnot
    rw [enter, if_neg (Ne.symm hnot.1), enter_of_notMem value hnot.2]
    rfl

theorem enter_of_mem {token : κ} (value : T) : ∀ {list : List (κ × T)},
    (list.map (·.1)).Nodup → token ∈ list.map (·.1) → enter list token value =
        list.map fun p => if p.1 = token then (p.1, value) else p
  | p :: list, hnd, hmem => by
    rw [map_cons, nodup_cons] at hnd
    rw [enter, map_cons]
    by_cases hp : p.1 = token
    · -- no other entry has the token
      have hrest : (list.map fun p => if p.1 = token then (p.1, value) else p) = list := by
        conv_rhs => rw [← map_id list]
        refine map_congr_left fun q hq => if_neg fun hq' => hnd.1 ?_
        rw [hp, ← hq']
        exact mem_map_of_mem hq
      rw [if_pos hp, if_pos hp, hrest]
    · rw [if_neg hp, if_neg hp, enter_of_mem value hnd.2]
      rw [map_cons, mem_cons] at hmem
      exact hmem.resolve_left (Ne.symm hp)

theorem enter_eq {list : List (κ × T)} (hnd : (list.map (·.1)).Nodup) (token : κ) (value : T) :
    enter list token value = History.enterPending list token value := by
  unfold History.enterPending
  split_ifs with hmem
  · exact enter_of_mem value hnd hmem
  · exact enter_of_notMem value hmem

variable [Inhabited κ] (onCommit : U → T → U)

/-- The state represents the history, and its head counts what was committed. -/
structure RepresentsAt (s : SettingBase U T κ c) (h : History U T κ (c.size - 7)) (n : Nat) :
    Prop where
  represents : Represents s h
  head : s.sequenceHead = n

variable {n : Nat} (ha : Addressed c top) (htop : top ≤ 2 ^ 63) (hc : 8 < c.size)

section
include ha htop hc

omit [DecidableEq κ] [Inhabited κ] in
theorem RepresentsAt.publish (hr : RepresentsAt s h n) (hn : (n : Int) + 1 < top) (update : U → U) (now : Int) :
    ∃ s', s.publish update now = some (true, s') ∧
      RepresentsAt s' (h.append update now) (n + 1) := by
  obtain ⟨s', hpub, hrepresents, hhead⟩ :=
    hr.represents.publish ha htop hc (by rw [hr.head]; exact hn) update now
  exact ⟨s', hpub, hrepresents, by rw [hhead, hr.head]; push_cast; rfl⟩

theorem RepresentsAt.commit (hr : RepresentsAt s h n) (hn : (n : Int) + 1 < top) (value : T) (now : Int) :
    ∃ s', s.commit onCommit value now = some (true, s') ∧
      RepresentsAt s' (h.append (onCommit · value) now) (n + 1) := by
  rw [SettingBase.commit, SettingBase.stage, if_pos rfl]
  exact hr.publish ha htop hc hn (onCommit · value) now

theorem RepresentsAt.stage (hr : RepresentsAt s h n) (value : T) (token : κ) (now : Int)
    (hn : (n : Int) + h.commits (.stage value token now : Call U T κ) < top) :
    ∃ s', s.stage onCommit value token now = some ((h.stage onCommit value token now).1, s') ∧
      RepresentsAt s' (h.stage onCommit value token now).2
        (n + h.commits (.stage value token now : Call U T κ)) := by
  unfold SettingBase.stage History.stage SettingBase.nullToken
  unfold History.commits at hn ⊢
  dsimp only at hn ⊢
  split_ifs at hn ⊢ with htoken
  · exact hr.publish ha htop hc hn (onCommit · value) now
  · have hentered := hr.represents.withPending (History.enterPending h.pending token value)
      (History.nodup_enterPending h.unique token value)
    rw [hr.represents.pending, enter_eq h.unique]
    refine ⟨_, rfl, ?_, ?_⟩
    · rw [hentered.retireExpired]
      exact hentered
    · rw [hentered.retireExpired]
      exact hr.head

end

theorem selects_eq (token : κ) (setting : κ × T) :
    selects token setting = decide (token = default ∨ setting.1 = token) := by
  rw [selects, Bool.decide_or]
  rfl

/-- What `commit(token)` commits of a list, in its order. -/
def chosen (token : κ) (list : List (κ × T)) : List (κ × T) :=
  list.filter fun p => token = default ∨ p.1 = token

include ha htop hc in
theorem RepresentsAt.commitSelected (token : κ) (now : Int) :
    ∀ {list : List (κ × T)} {s : SettingBase U T κ c} {h : History U T κ (c.size - 7)} {n : Nat},
    RepresentsAt s h n → (n : Int) + (chosen token list).length < top →
      ∃ s', SettingBase.commitSelected onCommit token now list s =
          some ((list.filter fun p => ¬(token = default ∨ p.1 = token),
            !(chosen token list).isEmpty), s') ∧
        RepresentsAt s' (h.commitAll onCommit ((chosen token list).map (·.2)) now)
          (n + (chosen token list).length)
  | [], s, h, n, hr, _ => ⟨s, rfl, hr⟩
  | setting :: list, s, h, n, hr, hn => by
    unfold SettingBase.commitSelected
    rw [selects_eq]
    by_cases hselected : token = default ∨ setting.1 = token
    · have hchosen : chosen token (setting :: list) = setting :: chosen token list :=
        List.filter_cons_of_pos (by simpa using hselected)
      rw [hchosen, length_cons] at hn
      obtain ⟨s₁, hcommit, hr₁⟩ :=
        hr.commit onCommit ha htop hc (by omega) setting.2 now
      obtain ⟨s₂, hrest, hr₂⟩ := commitSelected token now hr₁
        (show ((n + 1 : Nat) : Int) + (chosen token list).length < top by push_cast; omega)
      refine ⟨s₂, ?_, ?_⟩
      · rw [decide_eq_true hselected, hcommit]
        simp only [bind_eq_bind, bind_some, if_true, hrest, hchosen]
        rw [List.filter_cons_of_neg (by rw [decide_eq_true_eq]; exact not_not.mpr hselected)]
        rfl
      · rw [hchosen, map_cons, length_cons, add_comm _ 1, ← add_assoc]
        exact hr₂
    · have hchosen : chosen token (setting :: list) = chosen token list :=
        List.filter_cons_of_neg (by simpa using hselected)
      rw [hchosen] at hn ⊢
      obtain ⟨s₁, hrest, hr₁⟩ := commitSelected token now hr hn
      refine ⟨s₁, ?_, hr₁⟩
      rw [decide_eq_false hselected]
      simp only [bind_eq_bind, bind_some, hrest]
      rw [List.filter_cons_of_pos (by simpa using hselected)]
      rfl

omit [DecidableEq κ] [Inhabited κ] in
theorem commitAll_pending {limit : Nat} (now : Int) : ∀ (values : List T)
    (h : History U T κ limit), (h.commitAll onCommit values now).pending = h.pending
  | [], _ => rfl
  | value :: values, h => commitAll_pending now values (h.append (onCommit · value) now)

include ha htop hc in
theorem RepresentsAt.commitToken (hr : RepresentsAt s h n) (token : κ) (now : Int)
    (hn : (n : Int) + (h.selected token).length < top) :
    ∃ s', s.commitToken onCommit token now = some ((h.commitToken onCommit token now).1, s') ∧
      RepresentsAt s' (h.commitToken onCommit token now).2 (n + (h.selected token).length) := by
  obtain ⟨_, hselected, hr₁⟩ := hr.commitSelected onCommit ha htop hc token now hn
  unfold SettingBase.commitToken
  rw [hr.represents.pending, hselected]
  have hretired := hr₁.represents.withPending
    (h.pending.filter fun p => ¬(token = default ∨ p.1 = token))
    (h.unique.sublist (filter_sublist.map _))
  refine ⟨_, rfl, ?_, hr₁.head⟩
  have hsame : (h.commitToken onCommit token now).2 =
      { h.commitAll onCommit ((chosen token h.pending).map (·.2)) now with
        pending := h.pending.filter fun p => ¬(token = default ∨ p.1 = token)
        unique := h.unique.sublist (filter_sublist.map _) } := by
    unfold History.commitToken History.retire History.selected chosen
    simp only [commitAll_pending]
  rw [hsame]
  exact hretired

theorem RepresentsAt.retireStaged (hr : RepresentsAt s h n) (token : κ) :
    (s.retireStaged token).1 = !(h.selected token).isEmpty ∧
      RepresentsAt (s.retireStaged token).2 (h.retire token) n := by
  have hpredicate : selects (T := T) token =
      fun p => decide (token = default ∨ p.1 = token) := funext (selects_eq token)
  have hretired := hr.represents.withPending
    (h.pending.filter fun p => ¬(token = default ∨ p.1 = token))
    (h.unique.sublist (filter_sublist.map _))
  unfold SettingBase.retireStaged
  rw [hpredicate, hr.represents.pending]
  simp only [← decide_not]
  refine ⟨?_, hretired, hr.head⟩
  rw [Bool.eq_iff_iff, List.any_eq_true, Bool.not_eq_true', List.isEmpty_eq_false_iff_exists_mem]
  simp only [History.selected, List.mem_filter]

include ha htop hc in
omit [DecidableEq κ] [Inhabited κ] in
/-- The constructor leaves the default setting as the only one. -/
theorem create_represents (h0 : 0 < top) (initial : U) (created : Int) :
    ∃ s : SettingBase U T κ c, create initial created = some s ∧
      RepresentsAt s (History.start (by omega) initial created) 0 := by
  let node : Node U := { value := initial, validSince := created }
  let ring : RingBuffer (Node U) (MultiThreadedStrategy c) c :=
    { entries := Vector.replicate _ node, strategy := {} }
  have htranslator : ∀ old, ring.at? (0 : Nat) = some old →
      some (some { old with value := initial }) = some (some node) := by
    intro old hold
    rw [at?_eq ha ring (by simpa using h0)] at hold
    have hreplicate : ring.entries.get ⟨_, slot_lt c 0⟩ = node := Vector.getElem_replicate _
    rw [hreplicate] at hold
    cases hold
    rfl
  have hroom : ((0 : Nat) : Int) - c.size ≤ getMinimumSequence [] ring.strategy.cursor := by
    show (0 : Int) - c.size ≤ -1
    omega
  have hfirst : ring.strategy.cursor + 1 = (0 : Nat) := rfl
  obtain ⟨ring', hring, hcur, hcache, hself, -⟩ :=
    tryPublishEvent_eq ha htop hfirst (by simpa using h0) hroom htranslator
  refine ⟨{ ring := ring', sequenceHead := 0, sequenceTail := 0 }, ?_,
    ⟨hcur, le_rfl, ?_, rfl, ?_, rfl⟩, rfl⟩
  · have hcreate : (create initial created : Option (SettingBase U T κ c)) =
        (ring.tryPublishEvent [] fun node => some (some { node with value := initial })).bind
          fun r => some ⟨r.2, r.2.strategy.cursor, r.2.strategy.cursor, []⟩ := rfl
    rw [hcreate, hring, bind_some, hcur]
    rfl
  · rcases hcache with hcache | hcache
    · exact hcache.trans_le (show (-1 : Int) ≤ 0 by decide)
    · exact hcache.trans_le (show (-1 : Int) ≤ 0 by decide)
  · intro k n hk
    obtain ⟨hlt, heq⟩ := List.getElem?_eq_some_iff.mp hk
    have hlt : k < 1 := hlt
    obtain rfl : k = 0 := by omega
    subst heq
    exact hself

include ha htop hc in
theorem RepresentsAt.step (hr : RepresentsAt s h n) (call : Call U T κ) (hn : (n : Int) + h.commits call < top) :
    ∃ s', s.step onCommit call = some (s', (h.step onCommit call).2) ∧
      RepresentsAt s' (h.step onCommit call).1 (n + h.commits call) := by
  have hhead : s.sequenceHead < 2 ^ 63 := by
    rw [hr.head]
    omega
  cases call with
  | stage value token now =>
    obtain ⟨s', hstage, hr'⟩ := hr.stage onCommit ha htop hc value token now hn
    exact ⟨s', by rw [SettingBase.step, hstage]; rfl, hr'⟩
  | commit value now =>
    obtain ⟨s', hcommit, hr'⟩ := hr.commit onCommit ha htop hc hn value now
    exact ⟨s', by rw [SettingBase.step, hcommit]; rfl, hr'⟩
  | commitToken token now =>
    obtain ⟨s', hcommit, hr'⟩ := hr.commitToken onCommit ha htop hc token now hn
    exact ⟨s', by rw [SettingBase.step, hcommit]; rfl, hr'⟩
  | modifySetting modFunction now =>
    obtain ⟨s', hpub, hr'⟩ := hr.publish ha htop hc hn modFunction now
    exact ⟨s', by rw [SettingBase.step, modifySetting, hpub]; rfl, hr'⟩
  | retireStaged token =>
    obtain ⟨hretired, hr'⟩ := hr.retireStaged token
    exact ⟨_, by rw [SettingBase.step, hretired]; rfl, hr'⟩
  | get idx =>
    exact ⟨s, by rw [SettingBase.step, hr.represents.get_eq hhead]; rfl, hr⟩
  | getSince timeStamp =>
    exact ⟨s, by rw [SettingBase.step, hr.represents.getSince_eq]; rfl, hr⟩
  | nHistory =>
    exact ⟨s, by rw [SettingBase.step, hr.represents.nHistory_eq hhead]; rfl, hr⟩
  | getPendingTransactions =>
    refine ⟨s, ?_, hr⟩
    rw [SettingBase.step, getPendingTransactions, hr.represents.pending]
    rfl

include ha htop hc in
theorem RepresentsAt.run :
    ∀ {calls : List (Call U T κ)} {s : SettingBase U T κ c} {h : History U T κ (c.size - 7)}
      {n : Nat}, RepresentsAt s h n → (n : Int) + h.runCommits onCommit calls < top →
      s.run onCommit calls = some (h.run onCommit calls)
  | [], s, h, n, _, _ => rfl
  | call :: calls, s, h, n, hr, hn => by
    rw [History.runCommits] at hn
    obtain ⟨s', hstep, hr'⟩ := hr.step onCommit ha htop hc call (by omega)
    have hrest : s'.run onCommit calls = some ((h.step onCommit call).1.run onCommit calls) :=
      run hr' (by push_cast; omega)
    rw [SettingBase.run, hstep]
    simp only [bind_eq_bind, bind_some, hrest]
    rfl

end

end Represents

/-- With `N_HISTORY` slots: whatever is called on a new setting, the answers are
those of a history, as long as the sequence numbers fit in `std::int64_t`. -/
def Refines (c : Size) (hc : 8 < c.size) : Prop :=
  ∀ (U T κ : Type) [DecidableEq κ] [Inhabited κ] (onCommit : U → T → U) (initial : U)
    (created : Int) (calls : List (Call U T κ)),
    let h : History U T κ (c.size - 7) := History.start (by omega) initial created
    h.runCommits onCommit calls < 2 ^ 63 →
      ((create initial created : Option (SettingBase U T κ c)).bind
        fun s => s.run onCommit calls) = some (h.run onCommit calls)

theorem refines_of_shift_le {c : Size} (hc : 8 < c.size) (hshift : c.indexShift ≤ 30) :
    Refines c hc := by
  intro U T κ _ _ onCommit initial created calls h hcommits
  have ha := addressed_of_shift_le hshift
  obtain ⟨s, hcreate, hr⟩ := create_represents ha le_rfl hc (by decide) initial
    created
  rw [hcreate, bind_some]
  exact hr.run onCommit ha le_rfl hc (by
    rw [Nat.cast_zero, zero_add]
    exact_mod_cast hcommits)

/-! ## Rings that cannot be addressed -/

section Overflow

variable {c : Size}

/-- The commit that reaches the first sequence number without an entry. -/
theorem commit_overflow (hshift : 31 ≤ c.indexShift)
    {s : SettingBase Unit Unit Unit c} {h : History Unit Unit Unit (c.size - 7)}
    (hr : RepresentsAt s h (2 ^ 31 - 17)) : s.step (fun _ => id) (.commit () 0) = none := by
  have hlen := hr.represents.length
  have hbounded := h.bounded
  have hcur : s.ring.strategy.cursor + 1 = (2 ^ 31 - 16 : Nat) := by
    rw [hr.represents.cursor, hr.head]
    rfl
  obtain ⟨_, hclaim, -⟩ := tryNext_ok s.ring.strategy [s.sequenceHead, s.sequenceTail]
    (by rw [hcur]; rfl) (by rw [hr.represents.minimum, hr.represents.cursor]; omega)
  have hat : s.ring.at? (2 ^ 31 - 16 : Nat) = none := by
    rw [RingBuffer.at?, entryIndex_overflow hshift]
    rfl
  rw [hcur] at hclaim
  have hpub : s.publish (fun _ => ()) 0 = none := by
    rw [publish, RingBuffer.tryPublishEvent, hclaim]
    simp only [bind_eq_bind, bind_some, hat, Option.bind_none]
  show (s.publish (fun _ => ()) 0).map _ = none
  rw [hpub]
  rfl

/-- Commits up to there. -/
theorem run_overflow (hshift : 31 ≤ c.indexShift) (hc : 8 < c.size) :
    ∀ {k n : Nat} {s : SettingBase Unit Unit Unit c} {h : History Unit Unit Unit (c.size - 7)},
    RepresentsAt s h n → n + k = 2 ^ 31 - 17 →
      s.run (fun _ => id) (replicate (k + 1) (.commit () 0)) = none
  | 0, n, s, h, hr, hn => by
    obtain rfl : n = 2 ^ 31 - 17 := by omega
    rw [replicate_succ, run, commit_overflow hshift hr]
    rfl
  | k + 1, n, s, h, hr, hn => by
    have ha := addressed_of_le_shift hshift
    obtain ⟨_, hstep, hr'⟩ := hr.step (fun _ => id) ha (by decide) hc (.commit () 0) (by
      show (n : Int) + 1 < 2 ^ 31 - 16
      omega)
    rw [replicate_succ, run, hstep]
    simp only [bind_eq_bind, bind_some]
    rw [run_overflow hshift hc hr' (by
      show n + 1 + k = 2 ^ 31 - 17
      omega)]
    rfl

theorem runCommits_replicate {limit : Nat} : ∀ {k : Nat} {h : History Unit Unit Unit limit},
    h.runCommits (fun _ => id) (replicate k (.commit () 0)) = k
  | 0, _ => rfl
  | k + 1, h => by
    rw [replicate_succ, History.runCommits, runCommits_replicate]
    exact add_comm 1 k

theorem not_refines_of_le_shift (hshift : 31 ≤ c.indexShift) (hc : 8 < c.size) : ¬Refines c hc := by
  intro hrefines
  have hrun := hrefines Unit Unit Unit (fun _ => id) () 0
    (replicate (2 ^ 31 - 17 + 1) (.commit () 0)) (by
      rw [runCommits_replicate]
      decide)
  obtain ⟨s, hcreate, hr⟩ := create_represents
    (addressed_of_le_shift hshift) (by decide) hc (by decide) () 0
  rw [hcreate, bind_some, run_overflow hshift hc hr (by omega)] at hrun
  cases hrun

end Overflow

/-- The code is a history exactly if it has at most `2 ^ 30` slots. -/
theorem refines_iff (c : Size) (hc : 8 < c.size) : Refines c hc ↔ c.indexShift ≤ 30 := by
  constructor
  · intro hrefines
    by_contra hshift
    exact not_refines_of_le_shift (by omega) hc hrefines
  · exact refines_of_shift_le hc

theorem refines_iff_sixteen : 8 < (⟨4, by decide⟩ : Size).size ∧ Refines ⟨4, by decide⟩ (by decide) :=
  ⟨by decide, (refines_iff ⟨4, by decide⟩ (by decide)).mpr (by decide)⟩

/-- With `2 ^ 31` slots the code stops being one. -/
theorem not_refines : ¬Refines ⟨31, by decide⟩ (by decide) :=
  not_refines_of_le_shift le_rfl (by decide)

end OpenCmw.Settings
