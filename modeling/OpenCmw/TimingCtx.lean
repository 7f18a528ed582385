import OpenCmw.DecimalText

/-!
# Timing contexts

A `TimingCtx` holds a selector text and four ids. The text is public; the ids
are read off it lazily, and a hash of the text they were read off is kept with
them, so that `parse` reads the text again only if its hash is another one.
`readSelector` is what `parse` does then.

The reader takes a little more than its grammar: `std::from_chars` may stop in
the middle of a value, and for a number that does not fit it leaves the zero
the value was made with. Without such tags the accepted texts are exactly the
selectors (`ofText_grammar_iff`), and a context made of ids has the selector
that is read back as these ids (`ofIds_readBack`).
-/

namespace OpenCmw

open IntType (int32)
open List (mem_cons_self Forall₂ append_cancel_left)

/-- `const_hash` of a C string, whose characters are signed. -/
def constHash : Bytes → UInt32
  | [] => 5381
  | c :: s => if c = 0 then 5381 else UInt32.ofInt c.toInt8.toInt + 33 * constHash s

namespace TimingCtx

inductive Id where
  | cid
  | sid
  | pid
  | gid
  deriving DecidableEq

namespace Id

def all : List Id := [cid, sid, pid, gid]

/-- The key of an id in a selector. -/
def key : Id → UInt8
  | cid => chr 'C'
  | sid => chr 'S'
  | pid => chr 'P'
  | gid => chr 'T'

def ofKey? (c : UInt8) : Option Id := all.find? fun k => k.key == c

theorem mem_all (k : Id) : k ∈ all := by cases k <;> decide

theorem ofKey?_eq_some_iff {c : UInt8} {k : Id} : ofKey? c = some k ↔ c = k.key := by
  constructor
  · intro h
    have hkey := List.find?_some h
    exact (beq_iff_eq.mp hkey).symm
  · rintro rfl
    cases k <;> rfl

end Id

abbrev Ids := Id → Int

/-- `WILDCARD_VALUE`, for all ids. -/
def wildcards : Ids := fun _ => -1

abbrev wildcard : Bytes := str "ALL"

abbrev selectorPrefix : Bytes := str "FAIR.SELECTOR."

/-- `DEFAULT`. -/
def defaultSelector : Bytes := selectorPrefix ++ wildcard

/-- `std::invalid_argument`, with what its text mentions. -/
inductive SelectorError where
  | invalidTag (tag : Bytes)
  | invalidFormat (tag : Bytes)
  | invalidInteger (value tag : Bytes)
  | unknownKey (key : UInt8) (tag : Bytes)
  deriving DecidableEq

def toUpper (mixedCase : Bytes) : Bytes :=
  mixedCase.map fun c => if chr 'a' ≤ c ∧ c ≤ chr 'z' then c - 32 else c

/-- The value of a tag; one that does not fit leaves `intValue` as it was. -/
def readValue (valueString tag : Bytes) : Except SelectorError Int :=
  if valueString = wildcard then .ok (-1)
  else match fromCharsInt .int32 valueString with
    | .invalidArgument => .error (.invalidInteger valueString tag)
    | .outOfRange _ => .ok 0
    | .ok value _ => .ok value

/-- One round of the loop of `parse`: the id a tag sets, and its value. -/
def readTag (tag : Bytes) : Except SelectorError (Id × Int) :=
  if tag.length < 3 then .error (.invalidTag tag)
  else if tag.idxOf (chr '=') ≠ 1 ∨ chr '=' ∈ tag.drop 2 then .error (.invalidFormat tag)
  else do
    let value ← readValue (tag.drop 2) tag
    match Id.ofKey? (tag.headD 0) with
    | some k => .ok (k, value)
    | none => .error (.unknownKey (tag.headD 0) tag)

def setTag (ids : Ids) (set : Id × Int) : Ids := Function.update ids set.1 set.2

/-- The loop over what stands between the ':', with the ids it leaves. -/
def readTags : List Bytes → Ids → Except SelectorError Unit × Ids
  | [], ids => (.ok (), ids)
  | tag :: tags, ids =>
    match readTag tag with
    | .ok set => readTags tags (setTag ids set)
    | .error e => (.error e, ids)

/-- What is kept of a text, and whether `parse` throws. -/
structure Reading where
  outcome : Except SelectorError Unit
  hash : UInt32
  ids : Ids

/-- `parse` of a text that is not taken for parsed. Only a tag that cannot be
read resets the hash. -/
def readSelector (selector : Bytes) : Reading :=
  let upperCaseSelector := toUpper selector
  if upperCaseSelector = [] ∨ upperCaseSelector = wildcard then
    ⟨.ok (), constHash selector, wildcards⟩
  else if startsWith upperCaseSelector selectorPrefix = false then
    ⟨.error (.invalidTag selector), constHash selector, wildcards⟩
  else
    let view := upperCaseSelector.drop selectorPrefix.length
    if view = wildcard then ⟨.ok (), constHash selector, wildcards⟩
    else
      match readTags (view.splitOn (chr ':')) wildcards with
      | (.ok (), ids) => ⟨.ok (), constHash selector, ids⟩
      | (.error e, ids) => ⟨.error e, 0, ids⟩

end TimingCtx

open TimingCtx in
structure TimingCtx where
  hash : UInt32 := constHash defaultSelector
  ids : Ids := wildcards
  selector : Bytes := defaultSelector
  bpcts : Int := 0

namespace TimingCtx

def parse (o : TimingCtx) : Except SelectorError Unit × TimingCtx :=
  if o.hash = constHash o.selector then (.ok (), o)
  else
    let reading := readSelector o.selector
    (reading.outcome, { o with hash := reading.hash, ids := reading.ids })

/-- `TimingCtx(selectorToken, bpcTimeStamp)`. -/
def ofText (selectorToken : Bytes) (bpcts : Int) : Except SelectorError TimingCtx :=
  let o : TimingCtx := { selector := toUpper selectorToken, bpcts }
  o.parse.1.map fun _ => o.parse.2

/-- The tag of an id that is no wildcard. -/
def idTag? (ids : Ids) (k : Id) : Option Bytes :=
  if ids k = -1 then none else some (k.key :: chr '=' :: formatInt (ids k))

/-- `toString<false>()`. -/
def idsText (ids : Ids) : Bytes :=
  if ∀ k ∈ Id.all, ids k = -1 then selectorPrefix ++ wildcard
  else selectorPrefix ++ [chr ':'].intercalate (Id.all.filterMap (idTag? ids))

/-- `TimingCtx(cid, sid, pid, gid, bpcTimeStamp)`. -/
def ofIds (ids : Ids) (bpcts : Int) : Except SelectorError TimingCtx :=
  let o : TimingCtx := { ids, selector := idsText ids, bpcts }
  o.parse.1.map fun _ => o.parse.2

/-- `toString()`. -/
def toString (o : TimingCtx) : Except SelectorError Bytes :=
  o.parse.1.map fun _ => idsText o.parse.2.ids

/-- What one of `cid()`, `sid()`, `pid()`, `gid()` returns, or `parse()`, which
returns nothing. -/
def call (o : TimingCtx) (x : Option Id) : Except SelectorError (Option Int) :=
  o.parse.1.map fun _ => x.map o.parse.2.ids

/-! ## Tags -/

/-- A tag of the grammar. -/
def IsTag (tag : Bytes) (set : Id × Int) : Prop :=
  ∃ value, tag = set.1.key :: chr '=' :: value ∧
    (value = wildcard ∧ set.2 = -1 ∨ Denotes .int32 value set.2)

/-- A number that is followed by something else or does not fit. -/
def IsSloppyTag (tag : Bytes) (set : Id × Int) : Prop :=
  ∃ number rest n, tag = set.1.key :: chr '=' :: (number ++ rest) ∧ IsDecimal true number n ∧
    (∀ c ∈ rest.head?, isDigit c = false) ∧ chr '=' ∉ rest ∧
    (rest ≠ [] ∨ ¬int32.Fits n) ∧ set.2 = if int32.Fits n then n else 0

theorem ne_wildcard_of_isDecimal {number : Bytes} {n : Int} (h : IsDecimal true number n)
    (rest : Bytes) : number ++ rest ≠ wildcard := by
  obtain ⟨hne, hchars⟩ := h.chars
  obtain ⟨c, _, rfl⟩ := List.exists_cons_of_ne_nil hne
  intro heq
  obtain rfl : c = chr 'A' := (List.cons.inj heq).1
  exact absurd (hchars _ mem_cons_self) (by decide)

theorem equal_notMem_of_isDecimal {number : Bytes} {n : Int} (h : IsDecimal true number n) :
    chr '=' ∉ number := fun hmem => absurd (h.chars.2 _ hmem) (by decide)

theorem readTag_eq_ok_iff {tag : Bytes} {set : Id × Int} :
    readTag tag = .ok set ↔ ∃ value, tag = set.1.key :: chr '=' :: value ∧ value ≠ [] ∧
      chr '=' ∉ value ∧ readValue value tag = .ok set.2 := by
  match tag with
  | [] | [_] | [_, _] => simp [readTag]
  | key :: equal :: c :: rest =>
    have hkey (k : Id) : k.key ≠ chr '=' := by cases k <;> decide
    have hformat : ((key :: equal :: c :: rest).idxOf (chr '=') ≠ 1 ∨ chr '=' ∈ c :: rest) ↔
        ¬(key ≠ chr '=' ∧ equal = chr '=' ∧ chr '=' ∉ c :: rest) := by
      by_cases hfirst : key = chr '=' <;> by_cases hsecond : equal = chr '=' <;>
        simp [List.idxOf_cons, hfirst, hsecond, or_iff_not_imp_left]
    rw [readTag, if_neg (by simp)]
    simp only [List.drop_succ_cons, List.drop_zero, List.headD_cons, List.cons.injEq, hformat]
    constructor
    · intro h
      split_ifs at h with hshape
      obtain ⟨-, rfl, hequal⟩ := hshape
      obtain ⟨value, hval, h⟩ := bind_eq_ok.mp h
      split at h
      · rename_i k hk
        cases h
        exact ⟨_, ⟨Id.ofKey?_eq_some_iff.mp hk, rfl, rfl⟩, List.cons_ne_nil _ _, hequal, hval⟩
      · cases h
    · rintro ⟨value, ⟨rfl, rfl, rfl⟩, -, hequal, hval⟩
      rw [if_neg (not_not.mpr ⟨hkey _, rfl, hequal⟩), hval, Id.ofKey?_eq_some_iff.mpr rfl]
      rfl

theorem readTag_iff {tag : Bytes} {set : Id × Int} :
    readTag tag = .ok set ↔ IsTag tag set ∨ IsSloppyTag tag set := by
  rw [readTag_eq_ok_iff]
  constructor
  · rintro ⟨value, rfl, -, hequal, hval⟩
    unfold readValue at hval
    split_ifs at hval with hall
    · exact .inl ⟨value, rfl, .inl ⟨hall, (Except.ok.inj hval).symm⟩⟩
    rcases fromCharsInt_cases .int32 value with hinvalid | ⟨number, n, rest, rfl, hn, hrest, heq⟩
    · rw [hinvalid] at hval
      cases hval
    have hequal : chr '=' ∉ rest := fun hmem => hequal (List.mem_append_right _ hmem)
    rw [heq] at hval
    by_cases hfits : int32.Fits n
    · rw [if_pos hfits] at hval
      by_cases hnil : rest = []
      · subst hnil
        rw [List.append_nil]
        exact .inl ⟨number, rfl, .inr (Except.ok.inj hval ▸ ⟨hn, hfits⟩)⟩
      · exact .inr ⟨number, rest, n, rfl, hn, hrest, hequal, .inl hnil, by
          rw [if_pos hfits, Except.ok.inj hval]⟩
    · rw [if_neg hfits] at hval
      exact .inr ⟨number, rest, n, rfl, hn, hrest, hequal, .inr hfits, by
        rw [if_neg hfits, Except.ok.inj hval]⟩
  · rintro (⟨value, htag, ⟨rfl, hset⟩ | hdenotes⟩ | ⟨number, rest, n, htag, hn, hrest, hequal, -, hset⟩)
    · exact ⟨_, htag, by decide, by decide, by rw [readValue, if_pos rfl, hset]⟩
    · have hall := ne_wildcard_of_isDecimal hdenotes.1 []
      rw [List.append_nil] at hall
      exact ⟨value, htag, hdenotes.1.chars.1, equal_notMem_of_isDecimal hdenotes.1, by
        rw [readValue, if_neg hall, fromCharsInt_eq_ok_nil_iff.mpr hdenotes]⟩
    · refine ⟨_, htag, ?_, ?_, ?_⟩
      · exact fun hnil => hn.chars.1 (List.append_eq_nil_iff.mp hnil).1
      · exact fun hmem => (List.mem_append.mp hmem).elim (equal_notMem_of_isDecimal hn) hequal
      · rw [readValue, if_neg (ne_wildcard_of_isDecimal hn rest),
          fromCharsInt_append (t := .int32) hn hrest, hset]
        split_ifs <;> rfl

theorem IsTag.not_sloppy {tag : Bytes} {set set' : Id × Int} (h : IsTag tag set) :
    ¬IsSloppyTag tag set' := by
  rintro ⟨_, rest, n, rfl, hn, hrest, -, hsloppy, -⟩
  obtain ⟨_, htag, hval⟩ := h
  obtain rfl := (List.cons.inj (List.cons.inj htag).2).2
  rcases hval with ⟨hall, -⟩ | hdenotes
  · exact ne_wildcard_of_isDecimal hn rest hall
  · have hread := fromCharsInt_eq_ok_nil_iff.mpr hdenotes
    rw [fromCharsInt_append (t := .int32) hn hrest] at hread
    split_ifs at hread with hfits
    exact hsloppy.elim (fun hne => hne (FromChars.ok.inj hread).2) fun hno => hno hfits

/-! ## Selectors -/

theorem readTags_eq_ok_iff {tags : List Bytes} {ids ids' : Ids} :
    readTags tags ids = (.ok (), ids') ↔
      ∃ sets, Forall₂ (readTag · = .ok ·) tags sets ∧ ids' = sets.foldl setTag ids := by
  induction tags generalizing ids with
  | nil => simp [readTags, eq_comm]
  | cons tag tags ih =>
    rw [readTags]
    cases htag : readTag tag with
    | error e => simp [List.forall₂_cons_left_iff, htag]
    | ok set => simp [List.forall₂_cons_left_iff, htag, ih]

/-- A text whose tags are read in a certain way, with the ids it stands for. -/
def Selects (reads : Bytes → Id × Int → Prop) (text : Bytes) (ids : Ids) : Prop :=
  (text = [] ∨ text = wildcard ∨ text = defaultSelector) ∧ ids = wildcards ∨
    ∃ view sets, text = selectorPrefix ++ view ∧
      Forall₂ reads (view.splitOn (chr ':')) sets ∧ ids = sets.foldl setTag wildcards

theorem not_forall₂_wildcard {reads : Bytes → Id × Int → Prop} {sets : List (Id × Int)}
    (hreads : ∀ {tag set}, reads tag set → readTag tag = .ok set) :
    ¬Forall₂ reads (wildcard.splitOn (chr ':')) sets := by
  have hsplit : wildcard.splitOn (chr ':') = [wildcard] := by decide
  rw [hsplit, List.forall₂_cons_left_iff]
  rintro ⟨set, _, hset, -⟩
  have herror : readTag wildcard = .error (.invalidFormat wildcard) := by decide
  exact nomatch herror.symm.trans (hreads hset)

theorem readSelector_ok_iff {selector : Bytes} {ids : Ids} :
    (readSelector selector).outcome = .ok () ∧ (readSelector selector).ids = ids ↔
      Selects (readTag · = .ok ·) (toUpper selector) ids := by
  unfold readSelector Selects
  dsimp only
  split_ifs with hplain hpre hview
  · refine ⟨fun ⟨_, hids⟩ => .inl ⟨hplain.imp_right .inl, hids.symm⟩, ?_⟩
    rintro (⟨-, rfl⟩ | ⟨view, sets, heq, -⟩)
    · exact ⟨rfl, rfl⟩
    · rcases hplain with hnil | hall
      · cases heq.symm.trans hnil
      · cases heq.symm.trans hall
  · refine iff_of_false (fun h => nomatch h.1) ?_
    rw [not_startsWith_iff] at hpre
    rintro (⟨htext, -⟩ | ⟨view, sets, heq, -⟩)
    · refine hplain (htext.imp_right fun h => h.resolve_right fun heq => hpre ?_)
      exact heq ▸ List.prefix_append _ _
    · exact hpre (heq ▸ List.prefix_append _ _)
  · obtain ⟨view, hupper⟩ := startsWith_iff.mp (Bool.eq_true_of_not_eq_false hpre)
    rw [← hupper, List.drop_left] at hview
    subst hview
    refine ⟨fun ⟨_, hids⟩ => .inl ⟨.inr (.inr hupper.symm), hids.symm⟩, ?_⟩
    rintro (⟨-, rfl⟩ | ⟨view, sets, heq, hsets, -⟩)
    · exact ⟨rfl, rfl⟩
    · obtain rfl := append_cancel_left (hupper.trans heq)
      exact absurd hsets (not_forall₂_wildcard id)
  · obtain ⟨view, hupper⟩ := startsWith_iff.mp (Bool.eq_true_of_not_eq_false hpre)
    rw [← hupper, List.drop_left] at hview ⊢
    refine Iff.trans (b := readTags (view.splitOn (chr ':')) wildcards = (.ok (), ids)) ?_ ?_
    · rcases readTags (view.splitOn (chr ':')) wildcards with ⟨_ | ⟨⟨⟩⟩, r⟩ <;> simp
    rw [readTags_eq_ok_iff]
    constructor
    · rintro ⟨sets, hsets⟩
      exact .inr ⟨view, sets, rfl, hsets⟩
    · rintro (⟨htext, -⟩ | ⟨_, sets, heq, hsets⟩)
      · rw [← or_assoc, hupper] at htext
        exact absurd (append_cancel_left (hupper.trans (htext.resolve_left hplain))) hview
      · exact ⟨sets, append_cancel_left heq ▸ hsets⟩

theorem toUpper_toUpper (s : Bytes) : toUpper (toUpper s) = toUpper s := by
  have hchar : ∀ c : UInt8, toUpper (toUpper [c]) = toUpper [c] := forall_uint8 (by decide +kernel)
  induction s with
  | nil => rfl
  | cons c s ih => exact congrArg₂ (· ++ ·) (hchar c) ih

/-! ## Contexts made of texts -/

/-- A text is accepted, and its ids are these. -/
def Yields (text : Bytes) (bpcts : Int) (ids : Ids) : Prop :=
  ∃ o, ofText text bpcts = .ok o ∧ ∀ k, o.call (some k) = .ok (some (ids k))

theorem parse_of_ne {o : TimingCtx} (h : o.hash ≠ constHash o.selector) :
    o.parse = ((readSelector o.selector).outcome,
      { o with hash := (readSelector o.selector).hash, ids := (readSelector o.selector).ids }) :=
  if_neg h

theorem parse_of_eq {o : TimingCtx} (h : o.hash = constHash o.selector) : o.parse = (.ok (), o) :=
  if_pos h

/-- Whatever was read successfully is kept under its hash. -/
theorem hash_readSelector {selector : Bytes} (h : (readSelector selector).outcome = .ok ()) :
    (readSelector selector).hash = constHash selector := by
  unfold readSelector at h ⊢
  dsimp only at h ⊢
  split_ifs at h ⊢
  · rfl
  · rfl
  · split at h
    · rfl
    · cases h

theorem parse_of_ofText {text : Bytes} {bpcts : Int} {o : TimingCtx} (h : ofText text bpcts = .ok o) :
    o.parse = (.ok (), o) := by
  obtain ⟨⟨⟩, hok, rfl⟩ := map_eq_ok.mp h
  set init : TimingCtx := { selector := toUpper text, bpcts }
  by_cases hhash : init.hash = constHash init.selector
  · rw [parse_of_eq hhash]
    exact parse_of_eq hhash
  · rw [parse_of_ne hhash] at hok ⊢
    exact parse_of_eq (hash_readSelector hok)

theorem yields_iff {text : Bytes} {bpcts : Int} {ids : Ids}
    (h : constHash (toUpper text) ≠ constHash defaultSelector) :
    Yields text bpcts ids ↔ Selects (readTag · = .ok ·) (toUpper text) ids := by
  have hparse := parse_of_ne (o := { selector := toUpper text, bpcts }) h.symm
  rw [← toUpper_toUpper text, ← readSelector_ok_iff, Yields, ofText]
  rw [hparse]
  cases hread : (readSelector (toUpper text)).outcome with
  | error e => simp [Except.map]
  | ok =>
    have hkept := hash_readSelector hread
    constructor
    · rintro ⟨o, ho, hids⟩
      cases ho
      refine ⟨rfl, funext fun k => ?_⟩
      have hk := hids k
      rw [call, parse_of_eq hkept] at hk
      exact Option.some.inj (Except.ok.inj hk)
    · rintro ⟨-, rfl⟩
      exact ⟨_, rfl, fun k => by rw [call, parse_of_eq hkept]; rfl⟩

theorem exists_forall₂ {α β : Type} {R : α → β → Prop} {l : List α} (h : ∀ a ∈ l, ∃ b, R a b) :
    ∃ l', Forall₂ R l l' := by
  induction l with
  | nil => exact ⟨[], .nil⟩
  | cons a l ih =>
    obtain ⟨b, hb⟩ := h a mem_cons_self
    obtain ⟨l', hl'⟩ := ih fun a ha => h a (List.mem_cons_of_mem _ ha)
    exact ⟨b :: l', .cons hb hl'⟩

theorem exists_of_forall₂ {α β : Type} {R : α → β → Prop} {l : List α} {l' : List β}
    (h : Forall₂ R l l') {a : α} (ha : a ∈ l) : ∃ b, R a b := by
  induction h with
  | nil => cases ha
  | cons hb _ ih => exact (List.mem_cons.mp ha).elim (fun heq => heq ▸ ⟨_, hb⟩) ih

section RoundTrip

variable {ids : Ids}

theorem isTag_of_idTag? (hfits : ∀ k, int32.Fits (ids k)) {k : Id} {tag : Bytes}
    (h : idTag? ids k = some tag) : IsTag tag (k, ids k) := by
  unfold idTag? at h
  split_ifs at h
  exact ⟨_, (Option.some.inj h).symm, .inr ⟨isDecimal_formatInt _, hfits k⟩⟩

theorem readTags_idTags (hfits : ∀ k, int32.Fits (ids k)) :
    ∀ (ks : List Id) (old : Ids), readTags (ks.filterMap (idTag? ids)) old =
      (.ok (), fun k => if k ∈ ks ∧ ids k ≠ -1 then ids k else old k)
  | [], old => by simp [readTags]
  | k :: ks, old => by
    cases htag : idTag? ids k with
    | none =>
      have hwild : ids k = -1 := by simpa [idTag?] using htag
      rw [List.filterMap_cons_none htag, readTags_idTags hfits ks]
      congr 1
      funext j
      by_cases hj : j = k
      · simp [hj, hwild]
      · simp [hj]
    | some tag =>
      have hset : ids k ≠ -1 := fun hwild => by simp [idTag?, hwild] at htag
      rw [List.filterMap_cons_some htag, readTags, readTag_iff.mpr (.inl (isTag_of_idTag? hfits htag))]
      dsimp only
      rw [readTags_idTags hfits ks]
      congr 1
      funext j
      by_cases hj : j = k
      · simp [hj, hset, setTag]
      · simp [hj, setTag]

theorem char_of_idTag? {k : Id} {tag : Bytes} (h : idTag? ids k = some tag) {c : UInt8}
    (hc : c ∈ tag) : c ≠ chr ':' ∧ toUpper [c] = [c] := by
  have hplain : ∀ c : UInt8, isDigit c = true ∨ c = chr '-' ∨ c = chr '=' ∨
      (∃ k ∈ Id.all, c = k.key) → c ≠ chr ':' ∧ toUpper [c] = [c] :=
    forall_uint8 (by decide +kernel)
  unfold idTag? at h
  split_ifs at h
  cases h
  refine hplain c ?_
  rcases List.mem_cons.mp hc with rfl | hc
  · exact .inr (.inr (.inr ⟨k, k.mem_all, rfl⟩))
  · rcases List.mem_cons.mp hc with rfl | hc
    · exact .inr (.inr (.inl rfl))
    · exact ((isDecimal_formatInt _).chars.2 c hc).imp_right .inl

theorem toUpper_append (s t : Bytes) : toUpper (s ++ t) = toUpper s ++ toUpper t := List.map_append

theorem toUpper_eq_self {s : Bytes} (h : ∀ c ∈ s, toUpper [c] = [c]) : toUpper s = s := by
  induction s with
  | nil => rfl
  | cons c s ih =>
    exact congrArg₂ (· ++ ·) (h c mem_cons_self) (ih fun c hc => h c (List.mem_cons_of_mem _ hc))

theorem toUpper_intercalate {tags : List Bytes} (h : ∀ tag ∈ tags, toUpper tag = tag) :
    toUpper ([chr ':'].intercalate tags) = [chr ':'].intercalate tags := by
  match tags with
  | [] => rfl
  | [tag] => simpa using h tag
  | tag :: tag' :: tags =>
    have ih := toUpper_intercalate fun t ht => h t (List.mem_cons_of_mem _ ht)
    rw [List.intercalate_cons_cons, toUpper_append, toUpper_append, ih, h tag mem_cons_self]
    rfl

/-- The text of ids stands for these ids. -/
theorem readSelector_idsText (hfits : ∀ k, int32.Fits (ids k)) :
    (readSelector (idsText ids)).outcome = .ok () ∧ (readSelector (idsText ids)).ids = ids := by
  rw [readSelector_ok_iff, idsText]
  split_ifs with hwild
  · exact .inl ⟨.inr (.inr (by decide +kernel)), funext fun k => hwild k k.mem_all⟩
  · have htag : ∀ tag ∈ Id.all.filterMap (idTag? ids), ∃ k, idTag? ids k = some tag :=
      fun tag htag => (List.mem_filterMap.mp htag).imp fun k hk => hk.2
    have hupper : ∀ tag ∈ Id.all.filterMap (idTag? ids), toUpper tag = tag := fun tag hmem =>
      toUpper_eq_self fun c hc => (char_of_idTag? (htag tag hmem).choose_spec hc).2
    have hne : Id.all.filterMap (idTag? ids) ≠ [] := by
      intro hnil
      refine hwild fun k hk => ?_
      simpa [idTag?] using List.filterMap_eq_nil_iff.mp hnil k hk
    have hsplit := List.splitOn_intercalate (chr ':')
      (fun tag hmem hc => (char_of_idTag? (htag tag hmem).choose_spec hc).1 rfl) hne
    obtain ⟨sets, hsets, hids⟩ := readTags_eq_ok_iff.mp (readTags_idTags hfits Id.all wildcards)
    refine .inr ⟨_, sets, ?_, hsplit.symm ▸ hsets, ?_⟩
    · rw [toUpper_append, toUpper_intercalate hupper]
      exact congrArg (· ++ _) (by decide +kernel)
    · rw [← hids]
      funext k
      by_cases hk : ids k = -1
      · simp [hk, wildcards]
      · simp [hk, k.mem_all]

end RoundTrip

/-- A context made of ids has these ids, writes its selector, and any other
context that reads the selector gets the ids back. -/
theorem ofIds_readBack {ids : Ids} (hfits : ∀ k, IntType.int32.Fits (ids k)) (bpcts : Int) :
    ∃ o, ofIds ids bpcts = .ok o ∧ (∀ k, o.call (some k) = .ok (some (ids k))) ∧
      o.toString = .ok o.selector ∧
      ∀ other : TimingCtx, other.hash ≠ constHash o.selector →
        ({ other with selector := o.selector } : TimingCtx).parse.1 = .ok () ∧
          ({ other with selector := o.selector } : TimingCtx).parse.2.ids = ids := by
  obtain ⟨hok, hids⟩ := readSelector_idsText hfits
  have hparse : ({ ids, selector := idsText ids, bpcts } : TimingCtx).parse =
      (.ok (), { hash := constHash (idsText ids), ids, selector := idsText ids, bpcts }) := by
    by_cases hhash : constHash defaultSelector = constHash (idsText ids)
    · rw [parse_of_eq hhash, hhash]
    · rw [parse_of_ne hhash, hok, hash_readSelector hok, hids]
  refine ⟨_, by rw [ofIds, hparse]; rfl, fun k => ?_, ?_, fun other hother => ?_⟩
  · rw [call, parse_of_eq rfl]
    rfl
  · rw [toString, parse_of_eq rfl]
    rfl
  · rw [parse_of_ne hother]
    exact ⟨hok, hids⟩

theorem ofIds_readBack_four : ∃ o, ofIds (fun k => Id.all.idxOf k) 0 = .ok o ∧
    o.call (some .gid) = .ok (some 3) :=
  have hfits : ∀ k, IntType.int32.Fits (Id.all.idxOf k) := fun k => by cases k <;> decide
  have ⟨o, ho, hids, _⟩ := ofIds_readBack hfits 0
  ⟨o, ho, hids .gid⟩

end TimingCtx

end OpenCmw
