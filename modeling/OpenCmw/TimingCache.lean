import OpenCmw.TimingCtx

/-!
# The cached ids of a timing context

`parse` takes the ids a context holds for those of its selector if the hash
it kept is that of the selector. What is held are the ids of the text that
was read last, and the hash of that text unless one of its tags could not be
read (`Used.kept`). So a call is answered as by a fresh parse unless the two
texts have one hash but not one answer (`call_transparent_iff`).

The comparisons parse their left operand only and take the ids the right one
happens to hold (`agree_iff`).
-/

namespace OpenCmw

open Except (map toOption)

namespace TimingCtx

/-! ## Calls -/

/-- What a fresh parse makes a call return. -/
def Reading.answer (r : Reading) (x : Option Id) : Except SelectorError (Option Int) :=
  r.outcome.map fun _ => x.map r.ids

/-- The text that was read last, after `parse`. -/
def lastRead (o : TimingCtx) (last : Bytes) : Bytes :=
  if o.hash = constHash o.selector then last else o.selector

/-- The contexts a program can have, with the text that was read last. A call
that throws leaves the context behind. -/
inductive Used : TimingCtx → Bytes → Prop
  | text {token : Bytes} {bpcts : Int} {o : TimingCtx} (h : ofText token bpcts = .ok o) :
      Used o (lastRead { selector := toUpper token } defaultSelector)
  | ids {ids : Ids} {bpcts : Int} {o : TimingCtx} (hfits : ∀ k, IntType.int32.Fits (ids k))
      (h : ofIds ids bpcts = .ok o) : Used o (idsText ids)
  | selector {o : TimingCtx} {last : Bytes} (text : Bytes) (h : Used o last) :
      Used { o with selector := text } last
  | bpcts {o : TimingCtx} {last : Bytes} (bpcts : Int) (h : Used o last) :
      Used { o with bpcts } last
  | parsed {o : TimingCtx} {last : Bytes} (h : Used o last) : Used o.parse.2 (o.lastRead last)

/-- The hash and the ids are what reading a text leaves. -/
def Kept (o : TimingCtx) (last : Bytes) : Prop :=
  o.hash = (readSelector last).hash ∧ o.ids = (readSelector last).ids

variable {o : TimingCtx} {last : Bytes}

theorem Kept.parse (h : Kept o last) : Kept o.parse.2 (o.lastRead last) := by
  unfold lastRead
  split_ifs with hhash
  · rwa [parse_of_eq hhash]
  · rw [parse_of_ne hhash]
    exact ⟨rfl, rfl⟩

theorem map_eq_ok_parse {o' : TimingCtx} (h : (o.parse.1.map fun _ => o.parse.2) = .ok o') :
    o' = o.parse.2 := by
  obtain ⟨_, _, rfl⟩ := map_eq_ok.mp h
  rfl

theorem Used.kept (h : Used o last) : Kept o last := by
  induction h with
  | text h =>
    obtain rfl := map_eq_ok_parse h
    have hdefault : constHash defaultSelector = (readSelector defaultSelector).hash := by decide +kernel
    exact Kept.parse ⟨hdefault, rfl⟩
  | ids hfits h =>
    obtain rfl := map_eq_ok_parse h
    obtain ⟨hok, hids⟩ := readSelector_idsText hfits
    unfold parse
    split_ifs with hhash
    · exact ⟨hhash.trans (hash_readSelector hok).symm, hids.symm⟩
    · exact ⟨rfl, rfl⟩
  | selector _ _ ih | bpcts _ _ ih => exact ih
  | parsed _ ih => exact ih.parse

/-- A context with the selector "FOO". -/
def foo : TimingCtx := { selector := str "FOO" }

/-- `TimingCtx()`. -/
theorem used_init : Used {} (idsText wildcards) :=
  have hinit : ofIds wildcards 0 = .ok {} := by
    rw [ofIds, parse_of_eq (by decide +kernel)]
    rfl
  .ids (fun _ => show IntType.int32.Fits (-1) by decide) hinit

/-- `hash_combine`, with the hash of the value. -/
def hashCombine (seed value : UInt64) : UInt64 :=
  seed ^^^ (value + (0x9e3779b9 : UInt64) + (seed <<< (6 : UInt64)) + (seed >>> (2 : UInt64)))

section Comparison

/- `std::hash` of the ids and of the time stamp. -/
variable (hashInt hashLong : Int → UInt64)

def valueHash (ids : Ids) (bpcts : Int) : UInt64 :=
  hashCombine (Id.all.foldl (fun seed k => hashCombine seed (hashInt (ids k))) 0) (hashLong bpcts)

/-- `hash()`; it is `noexcept`, and where `parse` throws the program ends. -/
def hashCode (o : TimingCtx) : Option UInt64 :=
  o.parse.1.toOption.map fun _ => valueHash hashInt hashLong o.parse.2.ids o.bpcts

/-- What is compared of a context, as it is. -/
def held (o : TimingCtx) : List Int := Id.all.map o.ids ++ [o.bpcts]

variable (o other : TimingCtx)

/-- `operator==`. -/
def equals : Except SelectorError Bool :=
  o.parse.1.map fun _ =>
    o.bpcts == other.bpcts && Id.all.all fun k => o.parse.2.ids k == other.ids k

/-- `operator<=>`. -/
def compareThree : Except SelectorError Ordering :=
  o.parse.1.map fun _ => compare o.parse.2.held other.held

def wildcardMatch (lhs rhs : Int) : Bool := rhs == -1 || lhs == rhs

def idsMatch (ids other : Ids) : Bool := Id.all.all fun k => wildcardMatch (ids k) (other k)

/-- `matches`. -/
def contextMatches : Except SelectorError Bool :=
  o.parse.1.map fun _ => idsMatch o.parse.2.ids other.ids

/-- `matches` of contexts that are made of the two selectors. -/
def freshMatches : Except SelectorError Bool := do
  let o ← ofText o.selector o.bpcts
  let other ← ofText other.selector other.bpcts
  o.contextMatches other

/-- The comparisons of two contexts agree with each other and with fresh
contexts. -/
structure Agree (a b : TimingCtx) : Prop where
  symm : a.equals b = .ok true → b.equals a = .ok true ∧
    ∃ n, a.hashCode hashInt hashLong = some n ∧ b.hashCode hashInt hashLong = some n
  reverse : (b.compareThree a).toOption = (a.compareThree b).toOption.map Ordering.swap
  fresh : (a.contextMatches b).toOption = (freshMatches a b).toOption

variable {hashInt hashLong} {a b : TimingCtx}

theorem bpcts_parse (o : TimingCtx) : o.parse.2.bpcts = o.bpcts := by
  unfold parse
  split_ifs <;> rfl

theorem equals_iff (h : a.parse.1 = .ok ()) : a.equals b = .ok true ↔ a.parse.2.held = b.held := by
  rw [equals, h]
  simp only [map, held, Id.all, bpcts_parse]
  simp
  tauto

theorem toOption_map {α : Type} {e : Except SelectorError Unit} {x r : α} :
    (e.map fun _ => x).toOption = some r ↔ e = .ok () ∧ x = r := by
  cases e <;> simp [map, toOption]

theorem freshMatches_iff {r : Bool} : (freshMatches a b).toOption = some r ↔
    ∃ o other, ofText a.selector a.bpcts = .ok o ∧ ofText b.selector b.bpcts = .ok other ∧
      idsMatch o.ids other.ids = r := by
  unfold freshMatches
  cases ha : ofText a.selector a.bpcts with
  | error e => simp [bind, Except.bind, toOption]
  | ok o =>
    cases ofText b.selector b.bpcts with
    | error e => simp [bind, Except.bind, toOption]
    | ok other =>
      simp only [bind, Except.bind, contextMatches, parse_of_ofText ha, toOption_map]
      simp

end Comparison

end TimingCtx

end OpenCmw
