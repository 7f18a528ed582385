import OpenCmw.DecimalText
import OpenCmw.QueryText
import OpenCmw.UriViews

/-!
# URI objects

A `URI` is more than its text: the components are views into the buffer the
text lives in, user, password, host and port are looked for whenever one of
them is asked for, and the query map is kept once it is there. All of this is
behind `const` accessors, and copy assignment has to carry it along.

A view knows its buffer. One that is not empty and does not lie in the
object's own text must not be read: `text` is `none` there, and so is an
accessor that would. So is `port()` where `std::stoi` throws, as `port()` is
`noexcept`.

An assignment may move the text of its target into another buffer; which one
is an argument. Moves are not modelled.
-/

namespace OpenCmw

open List

/-- The parts of the authority, looked for on demand. -/
inductive AuthorityPart where
  | userName
  | pwd
  | hostName
  | port
  deriving DecidableEq, Repr

structure View where
  buffer : Nat := 0
  span : Span := {}
  deriving DecidableEq, Repr

structure UriObject (check : UriCheck) where
  str : Bytes
  /-- Where the text is. -/
  buffer : Nat
  view : Component → View
  parsedAuthority : Bool := false
  part : AuthorityPart → View := fun _ => {}
  queryMap : QueryMap := ∅

/-- Where the searches of `parseAuthority` find the parts of an authority,
`[<user>[:password]@]<host>[:port]`. -/
def authoritySpan (authority : Bytes) : AuthorityPart → Option Span :=
  let userSplit := findFirstOf (str "@") authority 0
  let hasUser := userSplit < authority.length
  let pwdSplit := min (findFirstOf (str ":") authority 0) userSplit
  let hostStart := if hasUser then userSplit + 1 else 0
  let portSplit := findFirstOf (str ":") authority hostStart
  fun
  | .userName => if hasUser then some ⟨0, pwdSplit⟩ else none
  | .pwd =>
    if hasUser ∧ pwdSplit < userSplit then some ⟨pwdSplit + 1, userSplit - pwdSplit - 1⟩ else none
  | .hostName => some ⟨hostStart, portSplit - hostStart⟩
  | .port =>
    if portSplit < authority.length then some ⟨portSplit + 1, authority.length - (portSplit + 1)⟩
    else none

/-! ## The query map, pair by pair -/

/-- One round of the loop of `queryParamMap`: the pair it inserts and the
rest of the query. -/
def paramStep (check : UriCheck) (rest : Bytes) :
    Except UriError ((Bytes × Option Bytes) × Bytes) := do
  let key := rest.takeWhile fun c => !(str "=;&").contains c
  match rest.drop key.length with
  | [] => return ((rest, none), [])
  | separator :: rest =>
    let key ← decode check key
    if separator != chr '=' then return ((key, none), rest)
    else if rest.isEmpty then return ((key, none), [])
    else
      let value := rest.takeWhile fun c => !(str ";&").contains c
      match rest.drop value.length with
      | [] =>
        let value ← decode check value
        return ((key, if value.isEmpty then none else some value), [])
      | _ :: rest =>
        let value ← decode check value
        return ((key, some value), rest)

variable {check : UriCheck} {rest : Bytes}

theorem length_of_paramStep {rest' : Bytes} {param : Bytes × Option Bytes}
    (h : paramStep check rest = .ok (param, rest')) (hne : rest ≠ []) :
    rest'.length < rest.length := by
  have hpos : 0 < rest.length := length_pos_iff.mpr hne
  unfold paramStep at h
  dsimp only at h
  split at h
  · cases h
    exact hpos
  · rename_i separator rest₁ hdrop
    have hlen := congrArg length hdrop
    rw [length_drop, length_cons] at hlen
    obtain ⟨_, -, h⟩ := bind_eq_ok.mp h
    split_ifs at h with hseparator hemp
    · cases h
      omega
    · cases h
      exact hpos
    · split at h
      · obtain ⟨value, -, h⟩ := bind_eq_ok.mp h
        cases h
        exact hpos
      · rename_i hdrop'
        have hlen' := congrArg length hdrop'
        rw [length_drop, length_cons] at hlen'
        obtain ⟨value, -, h⟩ := bind_eq_ok.mp h
        cases h
        omega

/-- The loop, with the map it leaves behind. -/
def fillParams (check : UriCheck) (rest : Bytes) (params : QueryMap) :
    Except UriError Unit × QueryMap :=
  if _hne : rest = [] then (.ok (), params)
  else match _hstep : paramStep check rest with
    | .error e => (.error e, params)
    | .ok (param, rest') => fillParams check rest' (params.insert param.1 param.2)
  termination_by rest.length
  decreasing_by exact length_of_paramStep _hstep _hne

theorem fillParams_nil (check : UriCheck) (params : QueryMap) :
    fillParams check [] params = (.ok (), params) := by
  rw [fillParams, dif_pos rfl]

theorem fillParams_of_error {e : UriError} (hne : rest ≠ [])
    (h : paramStep check rest = .error e) (params : QueryMap) :
    fillParams check rest params = (.error e, params) := by
  rw [fillParams, dif_neg hne]
  split
  · rename_i e' he
    obtain rfl := Except.error.inj (h.symm.trans he)
    rfl
  · rename_i he
    cases h.symm.trans he

theorem fillParams_of_ok {rest' : Bytes} {param : Bytes × Option Bytes}
    (hne : rest ≠ []) (h : paramStep check rest = .ok (param, rest')) (params : QueryMap) :
    fillParams check rest params = fillParams check rest' (params.insert param.1 param.2) := by
  rw [fillParams, dif_neg hne]
  split
  · rename_i he
    cases h.symm.trans he
  · rename_i he
    obtain ⟨rfl, rfl⟩ := Prod.mk.inj (Except.ok.inj (h.symm.trans he))
    rfl

theorem parseParams_step (hne : rest ≠ []) (params : QueryMap) : parseParams check rest params =
      (paramStep check rest).bind fun r => parseParams check r.2 (params.insert r.1.1 r.1.2) := by
  rw [parseParams, if_neg (by simpa using hne)]
  unfold paramStep
  dsimp only
  split
  · rename_i hdrop
    rw [hdrop]
    exact (parseParams_nil check _).symm
  · rename_i separator rest₁ hdrop
    rw [hdrop]
    dsimp only
    cases decode check (rest.takeWhile fun c => !(str "=;&").contains c) with
    | error e => rfl
    | ok key =>
      split_ifs with hseparator hemp
      · rfl
      · exact (parseParams_nil check _).symm
      · split
        · rename_i hdrop'
          rw [hdrop']
          cases decode check (rest₁.takeWhile fun c => !(str ";&").contains c) with
          | error e => rfl
          | ok value => exact (parseParams_nil check _).symm
        · rename_i hdrop'
          rw [hdrop']
          cases decode check (rest₁.takeWhile fun c => !(str ";&").contains c) with
          | error e => rfl
          | ok value => rfl

/-- The parameters of a `Uri` are what the loop leaves if it runs to its end. -/
theorem parseParams_eq_fillParams (check : UriCheck) (rest : Bytes) (params : QueryMap) :
    parseParams check rest params =
      (fillParams check rest params).1.map fun _ => (fillParams check rest params).2 := by
  induction hlen : rest.length using Nat.strong_induction_on generalizing rest params with
  | _ n ih =>
    subst hlen
    rcases eq_or_ne rest [] with rfl | hne
    · rw [parseParams_nil, fillParams_nil]
      rfl
    · rw [parseParams_step hne]
      cases hstep : paramStep check rest with
      | error e =>
        rw [fillParams_of_error hne hstep]
        rfl
      | ok r =>
        rw [fillParams_of_ok hne hstep]
        exact ih _ (length_of_paramStep hstep hne) r.2 (params.insert r.1.1 r.1.2) rfl

namespace UriObject

variable {check : UriCheck}

/-! ## Construction and assignment -/

/-- The object of a text that `parseURI` has found these views in. -/
def ofViews (check : UriCheck) (buffer : Nat) (s : Bytes) (v : UriViews) : UriObject check :=
  { str := s, buffer, view := fun c => ⟨buffer, v.span c⟩ }

/-- The constructor. -/
def ofBytes (check : UriCheck) (buffer : Nat) (s : Bytes) : Except UriError (UriObject check) :=
  (UriViews.parse check s).map (ofViews check buffer s)

/-- `*this = other`, with the text of the target in `buffer` afterwards. -/
def assign (u other : UriObject check) (buffer : Nat) : UriObject check :=
  let adjustedView (v : View) : View := if v.buffer = other.buffer then { v with buffer } else v
  { str := other.str, buffer
    view := fun c => adjustedView (other.view c)
    queryMap := if (other.view .query).span.size = 0 then ∅ else other.queryMap
    parsedAuthority := other.parsedAuthority
    -- without the flag the views of the target stay what they are
    part := fun p => if other.parsedAuthority then adjustedView (other.part p) else u.part p }

/-- The copy constructor. -/
def copy (other : UriObject check) (buffer : Nat) : UriObject check :=
  assign { str := [], buffer, view := fun _ => {} } other buffer

/-! ## Accessors -/

/-- The text of a view, if it can be read. -/
def text (u : UriObject check) (v : View) : Option Bytes :=
  if v.span.size = 0 then some []
  else if v.buffer = u.buffer ∧ v.span.stop ≤ u.str.length then some (v.span.text u.str)
  else none

variable (u : UriObject check)

def returnOpt (v : View) : Option (Option Bytes) :=
  (u.text v).map fun src => if src.isEmpty then none else some src

/-- A part that is not found keeps its view. The flag is not set here. -/
def parseAuthority : UriObject check :=
  let authority := u.view .authority
  if u.parsedAuthority || authority.span.size == 0 then { u with parsedAuthority := true }
  else
    let found := authoritySpan (authority.span.text u.str)
    { u with
      part := fun p => match found p with
        | some s => { authority with span := authority.span.sub s.start s.size }
        | none => u.part p }

/-- `port()`; `none` where it ends the program. -/
def portNumber : Option (Option UInt16) :=
  (u.text (u.part .port)).bind fun port =>
    if port.isEmpty then some none else (stoi port).map fun n => some (UInt16.ofInt n)

/-- `queryParamMap()`. -/
def queryParamMap : Except UriError QueryMap × UriObject check :=
  let query := (u.view .query).span.text u.str
  if query.isEmpty || !u.queryMap.entries.isEmpty then (.ok u.queryMap, u)
  else match checked check isQueryChar query (.illegalQuery query) with
    | .error e => (.error e, u)
    | .ok () =>
      let filled := fillParams check query u.queryMap
      (filled.1.map fun _ => filled.2, { u with queryMap := filled.2 })

inductive Accessor where
  | scheme
  | authority
  | user
  | password
  | hostName
  | port
  | path
  | queryParam
  | fragment
  | queryParamMap
  deriving DecidableEq, Repr

inductive Answer where
  | text (value : Option Bytes)
  | number (value : Option UInt16)
  | params (result : Except UriError QueryMap)

/-- What an accessor returns, and the object after the call. -/
def call : Accessor → Option (Answer × UriObject check)
  | .scheme => (u.returnOpt (u.view .scheme)).map fun t => (.text t, u)
  | .authority => (u.returnOpt (u.view .authority)).map fun t => (.text t, u)
  | .user =>
    (u.parseAuthority.returnOpt (u.parseAuthority.part .userName)).map fun t =>
      (.text t, u.parseAuthority)
  | .password =>
    (u.parseAuthority.returnOpt (u.parseAuthority.part .pwd)).map fun t =>
      (.text t, u.parseAuthority)
  | .hostName =>
    (u.parseAuthority.returnOpt (u.parseAuthority.part .hostName)).map fun t =>
      (.text t, u.parseAuthority)
  | .port => u.parseAuthority.portNumber.map fun n => (.number n, u.parseAuthority)
  | .path => (u.returnOpt (u.view .path)).map fun t => (.text t, u)
  | .queryParam => (u.returnOpt (u.view .query)).map fun t => (.text t, u)
  | .fragment => (u.returnOpt (u.view .fragment)).map fun t => (.text t, u)
  | .queryParamMap => some (.params u.queryParamMap.1, u.queryParamMap.2)

def answer (x : Accessor) : Option Answer := (u.call x).map Prod.fst

/-- `Topic::fromMdpTopic`. -/
def fromMdpTopic : Option (Except TopicError Topic) :=
  (u.returnOpt (u.view .path)).map fun path => do
    let queryMap ← u.queryParamMap.1.mapError .uri
    Topic.make (path.getD (OpenCmw.str "/")) (Topic.paramsOf queryMap)

/-! ## Objects that were only constructed and read -/

/-- A view that can be read. -/
def Inside (v : View) : Prop :=
  0 < v.span.size → v.buffer = u.buffer ∧ v.span.stop ≤ u.str.length

/-- The components are those of the object's own text. -/
def Parsed : Prop :=
  ∃ v, UriViews.parse check u.str = .ok v ∧ ∀ c, u.view c = ⟨u.buffer, v.span c⟩

def authorityText : Bytes := (u.view .authority).span.text u.str

/-- The authority has the part. -/
def Defines (p : AuthorityPart) : Prop :=
  u.authorityText ≠ [] ∧ (authoritySpan u.authorityText p).isSome = true

/-- A part found by `parseAuthority`, as a view. -/
def found (s : Span) : View :=
  { u.view .authority with span := (u.view .authority).span.sub s.start s.size }

variable {u : UriObject check}

theorem Parsed.view_inside (h : u.Parsed) (c : Component) : u.Inside (u.view c) := by
  obtain ⟨v, hparse, hview⟩ := h
  rw [hview]
  exact fun hpos => ⟨rfl, UriViews.inside_of_parse hparse c hpos⟩

theorem text_of_inside {v : View} (h : u.Inside v) : u.text v = some (v.span.text u.str) := by
  unfold text
  split_ifs with hzero hinside
  · rw [Span.text_of_size_eq_zero hzero]
  · rfl
  · exact absurd (h (Nat.pos_of_ne_zero hzero)) hinside

theorem span_assign (u other : UriObject check) (buffer : Nat) (c : Component) :
    ((u.assign other buffer).view c).span = (other.view c).span := by
  simp only [assign]
  split_ifs <;> rfl

theorem span_part_assign (u other : UriObject check) (buffer : Nat) (p : AuthorityPart) :
    ((u.assign other buffer).part p).span =
      (if other.parsedAuthority = true then other.part p else u.part p).span := by
  simp only [assign]
  split_ifs <;> rfl

theorem Parsed.assign {other : UriObject check} (h : other.Parsed) (u : UriObject check)
    (buffer : Nat) : (u.assign other buffer).Parsed := by
  obtain ⟨v, hparse, hview⟩ := h
  refine ⟨v, hparse, fun c => ?_⟩
  simp only [UriObject.assign, hview, if_true]

theorem Parsed.text_view (h : u.Parsed) (c : Component) :
    u.text (u.view c) = some ((u.view c).span.text u.str) := text_of_inside (h.view_inside c)

theorem Parsed.text_eq_nil_iff (h : u.Parsed) (c : Component) :
    (u.view c).span.text u.str = [] ↔ (u.view c).span.size = 0 :=
  Span.text_eq_nil_iff fun hpos => (h.view_inside c hpos).2

theorem Parsed.authorityText_eq_nil_iff (h : u.Parsed) :
    u.authorityText = [] ↔ (u.view .authority).span.size = 0 := h.text_eq_nil_iff .authority

theorem Parsed.inside_found (h : u.Parsed) (s : Span) : u.Inside (u.found s) := by
  have hview := h.view_inside .authority
  intro hpos
  have hsize : 0 < (u.view .authority).span.size := by
    have hle : (u.found s).span.size ≤ (u.view .authority).span.size :=
      (Nat.min_le_right _ _).trans (Nat.sub_le _ _)
    exact hpos.trans_le hle
  have hinside : (u.view .authority).span.Inside u.str := fun hpos => (hview hpos).2
  exact ⟨(hview hsize).1, hinside.sub s.start s.size hpos⟩

theorem text_found (u : UriObject check) (s : Span) :
    (u.found s).span.text u.str = s.text u.authorityText := Span.text_sub _ _ _ _

/-- What `parseAuthority` does to a part. -/
theorem part_parseAuthority (h : u.Parsed)
    (hflag : u.parsedAuthority = true → (u.view .authority).span.size = 0) (p : AuthorityPart) :
    u.parseAuthority.part p = if u.authorityText = [] then u.part p
      else (authoritySpan u.authorityText p).elim (u.part p) u.found := by
  unfold parseAuthority
  have hnil := h.authorityText_eq_nil_iff
  by_cases hemp : (u.view .authority).span.size = 0
  · rw [if_pos (by simp [hemp]), if_pos (hnil.mpr hemp)]
  · have hfalse : u.parsedAuthority = false := Bool.eq_false_iff.mpr fun hf => hemp (hflag hf)
    rw [if_neg (by simp [hemp, hfalse]), if_neg (mt hnil.mp hemp)]
    dsimp only
    rw [authorityText]
    cases authoritySpan ((u.view .authority).span.text u.str) p <;> rfl

theorem parseAuthority_frame (u : UriObject check) :
    u.parseAuthority.str = u.str ∧ u.parseAuthority.buffer = u.buffer ∧
      u.parseAuthority.view = u.view ∧ u.parseAuthority.queryMap = u.queryMap := by
  unfold parseAuthority
  dsimp only
  split_ifs <;> exact ⟨rfl, rfl, rfl, rfl⟩

theorem queryParamMap_frame (u : UriObject check) :
    u.queryParamMap.2 = { u with queryMap := u.queryParamMap.2.queryMap } := by
  unfold queryParamMap
  dsimp only
  split_ifs
  · rfl
  · cases checked check isQueryChar _ _ <;> rfl

/-- An accessor leaves the object as it is, looks for the parts of the
authority, or fills the query map. -/
theorem call_cases {u' : UriObject check} {x : Accessor} {r : Answer}
    (h : u.call x = some (r, u')) : u' = u ∨ u' = u.parseAuthority ∨ u' = u.queryParamMap.2 := by
  cases x with
  | user | password | hostName | port =>
    obtain ⟨t, -, heq⟩ := Option.map_eq_some_iff.mp h
    exact .inr (.inl (Prod.mk.inj heq).2.symm)
  | queryParamMap => exact .inr (.inr (Prod.mk.inj (Option.some.inj h)).2.symm)
  | scheme | authority | path | queryParam | fragment =>
    obtain ⟨t, -, heq⟩ := Option.map_eq_some_iff.mp h
    exact .inl (Prod.mk.inj heq).2.symm

/-- The state of an object that was constructed from a text and then only
read. -/
structure Used (u : UriObject check) : Prop where
  parsed : u.Parsed
  flag : u.parsedAuthority = true → (u.view .authority).span.size = 0
  /-- A part whose view is not empty is one of the authority's. -/
  part : ∀ p, (u.part p).span.size = 0 ∨
    u.authorityText ≠ [] ∧ ∃ s, authoritySpan u.authorityText p = some s ∧ u.part p = u.found s
  params : (u.view .query).span.size = 0 → u.queryMap = ∅

theorem used_ofBytes {buffer : Nat} {s : Bytes} (h : ofBytes check buffer s = .ok u) : u.Used := by
  obtain ⟨v, hv, rfl⟩ := map_eq_ok.mp h
  exact ⟨⟨v, hv, fun _ => rfl⟩, nofun, fun _ => .inl rfl, fun _ => rfl⟩

namespace Used

variable {u : UriObject check}

theorem parseAuthority (h : u.Used) : u.parseAuthority.Used := by
  have hnil := h.parsed.authorityText_eq_nil_iff
  have hpart := part_parseAuthority h.parsed h.flag
  unfold UriObject.parseAuthority at hpart ⊢
  by_cases hskip : (u.parsedAuthority || (u.view .authority).span.size == 0) = true
  · rw [if_pos hskip]
    refine ⟨h.parsed, fun _ => ?_, h.part, h.params⟩
    simp only [Bool.or_eq_true, beq_iff_eq] at hskip
    exact hskip.elim h.flag id
  · rw [if_neg hskip] at hpart ⊢
    refine ⟨h.parsed, h.flag, fun p => ?_, h.params⟩
    have hsize : (u.view .authority).span.size ≠ 0 := fun hzero => hskip (by simp [hzero])
    have hne := mt hnil.mp hsize
    rw [hpart p, if_neg hne]
    cases hspan : authoritySpan u.authorityText p with
    | none => exact h.part p
    | some s => exact .inr ⟨hne, s, hspan, rfl⟩

theorem queryParamMap (h : u.Used) : u.queryParamMap.2.Used := by
  rw [queryParamMap_frame]
  refine ⟨h.parsed, h.flag, h.part, fun hsize => ?_⟩
  have hqry := (h.parsed.text_eq_nil_iff .query).mpr hsize
  rw [UriObject.queryParamMap]
  rw [hqry, isEmpty_nil, Bool.true_or, if_pos rfl]
  exact h.params hsize

theorem call {x : Accessor} {r : Answer} {u' : UriObject check} (h : u.Used)
    (hcall : u.call x = some (r, u')) : u'.Used := by
  rcases call_cases hcall with rfl | rfl | rfl
  · exact h
  · exact h.parseAuthority
  · exact h.queryParamMap

theorem part_of_flag (h : u.Used) (hflag : u.parsedAuthority = true) (p : AuthorityPart) :
    (u.part p).span.size = 0 :=
  (h.part p).resolve_right fun hne => hne.1 (h.parsed.authorityText_eq_nil_iff.mpr (h.flag hflag))

theorem copy (h : u.Used) (buffer : Nat) : (u.copy buffer).Used := by
  refine ⟨h.parsed.assign _ buffer, fun hflag => ?_, fun p => .inl ?_, fun hsize => ?_⟩
  · rw [UriObject.copy, span_assign]
    exact h.flag hflag
  · rw [UriObject.copy, span_part_assign]
    split_ifs with hflag
    · exact h.part_of_flag hflag p
    · rfl
  · rw [UriObject.copy, span_assign] at hsize
    exact if_pos hsize

end Used

/-- URIs as they are made and read, with no assignment. -/
inductive Made : UriObject check → Prop
  | constructed {buffer : Nat} {s : Bytes} {u : UriObject check}
      (h : ofBytes check buffer s = .ok u) : Made u
  | copied {u : UriObject check} (h : Made u) (buffer : Nat) : Made (u.copy buffer)
  | read {u u' : UriObject check} {x : Accessor} {r : Answer} (h : Made u)
      (hcall : u.call x = some (r, u')) : Made u'

theorem made_of_parse {s : Bytes} {v : UriViews} (h : UriViews.parse check s = .ok v)
    (buffer : Nat) : (ofViews check buffer s v).Made :=
  .constructed (map_eq_ok.mpr ⟨v, h, rfl⟩)

theorem Made.used (h : u.Made) : u.Used := by
  induction h with
  | constructed h => exact used_ofBytes h
  | copied _ buffer ih => exact ih.copy buffer
  | read _ hcall ih => exact ih.call hcall

/-! ## What such objects answer -/

/-- The accessor of a component. -/
def componentAccessor : Component → Accessor
  | .scheme => .scheme
  | .authority => .authority
  | .path => .path
  | .query => .queryParam
  | .fragment => .fragment

theorem answer_view (u : UriObject check) (c : Component) :
    u.answer (componentAccessor c) = (u.returnOpt (u.view c)).map .text := by
  cases c <;> simp only [answer, call, componentAccessor, Option.map_map] <;> rfl

theorem Parsed.answer_view (h : u.Parsed) (c : Component) : u.answer (componentAccessor c) =
      let text := (u.view c).span.text u.str
      some (.text (if text.isEmpty then none else some text)) := by
  rw [UriObject.answer_view, returnOpt, h.text_view]
  rfl

/-- The text of a part; none is empty. -/
def partText (p : AuthorityPart) : Bytes :=
  if u.authorityText = [] then []
  else (authoritySpan u.authorityText p).elim [] (·.text u.authorityText)

/-- The accessor of a part. -/
def partAccessor : AuthorityPart → Accessor
  | .userName => .user
  | .pwd => .password
  | .hostName => .hostName
  | .port => .port

/-- What that accessor makes of the text of its view. -/
def readPart (p : AuthorityPart) (src : Bytes) : Option Answer :=
  match p with
  | .port =>
    if src.isEmpty then some (.number none)
    else (stoi src).map fun n => .number (some (UInt16.ofInt n))
  | _ => some (.text (if src.isEmpty then none else some src))

theorem answer_part (u : UriObject check) (p : AuthorityPart) : u.answer (partAccessor p) =
      (u.parseAuthority.text (u.parseAuthority.part p)).bind (readPart p) := by
  cases p with
  | userName | pwd | hostName =>
    simp only [answer, call, partAccessor, returnOpt]
    cases u.parseAuthority.text _ <;> rfl
  | port =>
    simp only [answer, call, partAccessor, portNumber]
    cases u.parseAuthority.text _ with
    | none => rfl
    | some src =>
      simp only [Option.bind_some, readPart]
      split_ifs
      · rfl
      · cases stoi src <;> rfl

/-- A part that is empty reads like no other. -/
theorem readPart_eq_nil {p : AuthorityPart} {src : Bytes} (h : readPart p src = readPart p []) :
    src = [] := by
  by_contra hne
  have hemp : src.isEmpty = false := isEmpty_eq_false_iff.mpr hne
  cases p with
  | port =>
    simp only [readPart, hemp] at h
    cases stoi src <;> simp at h
  | _ => simp [readPart, hemp] at h

theorem text_parseAuthority (u : UriObject check) (v : View) :
    u.parseAuthority.text v = u.text v := by
  obtain ⟨hstr, hbuffer, -, -⟩ := u.parseAuthority_frame
  rw [text, text, hstr, hbuffer]

theorem Used.text_part (h : u.Used) (p : AuthorityPart) :
    u.parseAuthority.text (u.parseAuthority.part p) = some (u.partText p) := by
  have hsettled {v : View} (hsize : v.span.size = 0) : u.text v = some [] := if_pos hsize
  rw [text_parseAuthority, part_parseAuthority h.parsed h.flag, partText]
  split_ifs with hnil
  · exact hsettled ((h.part p).resolve_right fun hne => hne.1 hnil)
  · cases hspan : authoritySpan u.authorityText p with
    | none =>
      refine hsettled ((h.part p).resolve_right fun ⟨_, s, hs, _⟩ => ?_)
      rw [hspan] at hs
      cases hs
    | some s =>
      rw [Option.elim_some, text_of_inside (h.parsed.inside_found s), text_found]
      rfl

/-- Whatever was read before, an authority accessor answers from the text. -/
theorem Used.answer_part (h : u.Used) (p : AuthorityPart) :
    u.answer (partAccessor p) = readPart p (u.partText p) := by
  rw [UriObject.answer_part, h.text_part]
  rfl

end UriObject

end OpenCmw
