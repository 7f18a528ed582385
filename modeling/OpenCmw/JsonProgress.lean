import OpenCmw.StructLoops
import OpenCmw.JsonMaps

/-!
# The JSON readers go forward

No reader of the JSON protocol goes back, and its loops take at least one
character a round, so they end with the memory (`EndsAt`). Both are shown
together (`Moves`): a loop that runs out of fuel had no more fuel than
characters (`Spent`). A header is described once (`getHeader_eq_ok`): where
it begins, and what it does to the description of the field that was read
before it. A malformed one leaves that description as it is.
-/

namespace OpenCmw.Io.Json

open List Nat ByteReader

variable {m : Memory} {p q : Nat}

/-! ## Fuel and memory -/

/-- The memory ends somewhere: no byte at or behind `limit` can be read. -/
def EndsAt (m : Memory) (limit : Nat) : Prop := ∀ i, limit ≤ i → m.byteAt i = none

theorem EndsAt.size_le {limit : Nat} (hlimit : EndsAt m limit) : m.size ≤ limit := by
  by_contra hlt
  have hbyte := hlimit limit le_rfl
  have hlt : limit < m.data.length := Nat.lt_of_not_le hlt
  rw [Memory.byteAt, getElem?_eq_getElem hlt] at hbyte
  cases hbyte

/-- There is no more fuel than memory behind `p`. -/
def Spent (m : Memory) (p fuel : Nat) : Prop := ∀ limit, EndsAt m limit → fuel ≤ limit - p

theorem spent_zero : Spent m p 0 := fun _ _ => zero_le _

theorem Spent.start {fuel : Nat} (h : Spent m p fuel) : Spent m 0 fuel :=
  fun limit hlimit => (h limit hlimit).trans (sub_le limit p)

theorem not_spent {limit fuel : Nat} (hlimit : EndsAt m limit) (hfuel : limit < fuel) :
    ¬ Spent m 0 fuel := fun h => absurd (h limit hlimit) (not_le.mpr hfuel)

/-- A round that takes a character takes fuel for it. -/
theorem Spent.step {fuel p' : Nat} {c : UInt8} (h : Spent m q fuel) (hc : m.byteAt p' = some c)
    (hp : p ≤ p') (hq : p' < q) : Spent m p (fuel + 1) := by
  intro limit hlimit
  have hfuel := h limit hlimit
  have hlt : p' < limit := by
    by_contra hle
    rw [hlimit p' (Nat.le_of_not_lt hle)] at hc
    cases hc
  omega

theorem byteAt_of_lt (h : p < m.size) : ∃ c, m.byteAt p = some c :=
  ⟨m.data[p], by rw [Memory.byteAt, getElem?_eq_getElem h]⟩

/-! ## Characters, words and strings -/

theorem getByte_eq_ok {c : UInt8} : getByte m p = .ok (c, q) ↔ m.byteAt p = some c ∧ q = p + 1 := by
  rw [getByte]
  cases m.byteAt p with
  | none => simp
  | some b => simp [eq_comm]

variable {α : Type} {F : Prop} {info info' : DeserialiserInfo} {check : ProtocolCheck} {f : Field}

theorem moves_getByte_bind {r : UInt8 → Get α}
    (h : ∀ c, m.byteAt p = some c → Moves (r c) m (p + 1) F) : Moves (getByte >>= r) m p F := by
  refine Moves.bind_ok ⟨fun hc => ?_, fun he => absurd he ends_getByte⟩ fun c q hc _ => ?_
  · have hq := (getByte_eq_ok.mp hc).2
    omega
  · obtain ⟨hbyte, rfl⟩ := getByte_eq_ok.mp hc
    exact h c hbyte

theorem ends_atIndex (i : Nat) : Ends (atIndex i) m p := by
  unfold Ends atIndex
  cases m.data[i]? with
  | none => exact nofun
  | some b => exact nofun

theorem moves_atIndex (i : Nat) : Moves (atIndex i) m p F :=
  ⟨fun h => (atIndex_eq_ok.mp h).2.le, fun he => absurd he (ends_atIndex i)⟩

theorem moves_atIndex_bind {i : Nat} {r : UInt8 → Get α} (h : ∀ c, Moves (r c) m p F) :
    Moves (atIndex i >>= r) m p F := by
  refine (moves_atIndex i).bind_ok fun c q hc _ => ?_
  obtain ⟨-, rfl⟩ := atIndex_eq_ok.mp hc
  exact h c

theorem moves_throwProtocol (e : ProtocolException) : Moves (throwProtocol e : Get α) m p F :=
  moves_fail nofun

theorem asString_eq_ok {index : Nat} {requestedSize : Int} {s : Bytes}
    (h : asString index requestedSize m p = .ok (s, q)) : p = q := by
  rw [asString] at h
  split_ifs at h
  · exact (Prod.mk.inj (Except.ok.inj h)).2
  · exact (Prod.mk.inj (Except.ok.inj h)).2

theorem ends_asString (index : Nat) (requestedSize : Int) : Ends (asString index requestedSize) m p := by
  unfold Ends asString
  split_ifs <;> exact nofun

theorem moves_asString (index : Nat) (requestedSize : Int) :
    Moves (asString index requestedSize) m p F :=
  ⟨fun h => (asString_eq_ok h).le, fun he => absurd he (ends_asString _ _)⟩

theorem moves_advance (n : Nat) : Moves (advance n) m p F := by
  refine ⟨fun h => ?_, nofun⟩
  rw [advance_nat rfl] at h
  have hq := (Prod.mk.inj (Except.ok.inj h)).2
  omega

theorem consumeWhitespace_le {u : Unit} (h : consumeWhitespace m p = .ok (u, q)) : p ≤ q := by
  have hq : p + _ = q := (Prod.mk.inj (Except.ok.inj h)).2
  omega

theorem moves_consumeWhitespace : Moves consumeWhitespace m p F := ⟨consumeWhitespace_le, nofun⟩

theorem moves_startsWord (word : Bytes) : Moves (startsWord word) m p F :=
  moves_position_bind <| moves_size_bind <|
    moves_ite ((moves_asString _ _).bind fun _ _ _ => moves_pure _) (moves_pure _)

theorem moves_hexNumberAhead : Moves hexNumberAhead m p F := by
  constructor
  all_goals
    intros
    rename_i h
    rw [hexNumberAhead] at h
    split at h
  · exact (Prod.mk.inj (Except.ok.inj h)).2.le
  all_goals cases h

theorem moves_readEscape : Moves readEscape m p F := by
  refine moves_getByte_bind fun c _ => moves_position_bind <| moves_size_bind <|
    moves_ite (moves_atIndex _) ?_
  iterate 5 refine moves_ite (moves_pure _) ?_
  refine moves_ite ?_ (moves_atIndex_bind fun _ => moves_throwProtocol _)
  have hdigits : ∀ (hex : Bool) position (e : Bytes → ProtocolException) p, Moves (if hex then
      (advance 4 >>= fun _ => pure (chr '_') : Get UInt8)
    else asString position 4 >>= fun text => throwProtocol (e text)) m p F := fun _ _ _ _ =>
    moves_ite ((moves_advance 4).bind fun _ _ _ => moves_pure _)
      ((moves_asString _ _).bind fun _ _ _ => moves_throwProtocol _)
  exact moves_ite ((moves_pure _).bind fun _ _ _ => hdigits _ _ _ _)
    (moves_hexNumberAhead.bind fun _ _ _ => hdigits _ _ _ _)

theorem moves_readChars : ∀ {fuel p : Nat}, (Spent m p fuel → F) → Moves (readChars fuel) m p F
  | 0, _, hF => moves_fail fun _ => hF spent_zero
  | fuel + 1, p, hF => by
    refine moves_getByte_bind fun c hc => moves_ite (moves_pure _) <| moves_position_bind <|
      moves_atIndex_bind fun _ => ?_
    have hrest : ∀ (c : UInt8) q, p + 1 ≤ q → Moves ((c :: ·) <$> readChars fuel) m q F :=
      fun _ q hq => (moves_readChars fun h => hF (h.step hc le_rfl hq)).map _
    exact moves_ite (moves_readEscape.bind hrest) ((moves_pure _).bind hrest)

section Fuel

variable {fuel : Nat} (hF : Spent m 0 fuel → F)

include hF in
theorem moves_readString : Moves (readString fuel) m p F :=
  moves_position_bind <| moves_size_bind <| moves_ite (moves_pure _) <| moves_getByte_bind fun _ _ =>
    moves_ite (moves_throwProtocol _) (moves_readChars fun h => hF h.start)

/-- A key is at least its quotes. -/
theorem readKey_lt {key : Bytes} (h : readKey m p = .ok (key, q)) : p + 1 < q := by
  rw [readKey] at h
  obtain ⟨c, _, hc, h⟩ := bind_ok_iff.mp h
  obtain ⟨-, rfl⟩ := getByte_eq_ok.mp hc
  split_ifs at h with hquote
  · cases h
  rw [position_bind] at h
  obtain ⟨_, _, -, h⟩ := bind_ok_iff.mp h
  obtain ⟨_, _, -, h⟩ := bind_ok_iff.mp h
  split_ifs at h with hback
  · obtain ⟨_, _, -, h⟩ := bind_ok_iff.mp h
    cases h
  rw [setPosition_bind] at h
  have hq := asString_eq_ok h
  omega

theorem moves_readBool : Moves readBool m p F := by
  refine (moves_startsWord _).bind fun _ _ _ => moves_ite ?_ ?_
  · exact (moves_advance 5).bind fun _ _ _ => moves_pure _
  · refine (moves_startsWord _).bind fun _ _ _ => moves_ite ?_ (moves_throwProtocol _)
    exact (moves_advance 4).bind fun _ _ _ => moves_pure _

/-- A character that is taken and, unless it fits, given back. -/
theorem moves_peek {c : UInt8 → Prop} [DecidablePred c] {r : UInt8 → Get α} {r' : Get α}
    (h : ∀ b, m.byteAt p = some b → Moves (r b) m (p + 1) F) (h' : Moves r' m p F) :
    Moves (getByte >>= fun b => if c b then r b else advance (-1) >>= fun _ => r') m p F := by
  cases hb : m.byteAt p with
  | none =>
    have hbyte : getByte m p = .error .outOfBounds := by rw [getByte, hb]
    constructor
    all_goals
      rw [bind_of_error hbyte]
    · rintro _ _ ⟨⟩
    · rintro ⟨⟩
  | some b =>
    have hbyte := getByte_eq_ok.mpr ⟨hb, rfl⟩
    have hgoes := h b hb
    constructor
    all_goals
      rw [bind_of_ok hbyte]
      split_ifs with hc
    · exact fun ha => (le_succ p).trans (hgoes.forward ha)
    · rw [bind_of_ok advance_back]
      exact h'.forward
    · exact hgoes.fuel
    · rw [bind_of_ok advance_back]
      exact h'.fuel

theorem moves_takeDigits : ∀ {n p : Nat}, Moves (takeDigits n) m p F
  | 0, _ => moves_pure _
  | _ + 1, _ => moves_peek (fun _ _ => moves_takeDigits.map _) (moves_pure _)

theorem moves_checkRange (w : IntWidth) (start : Nat) (i : Int) : Moves (checkRange w start i) m p F := by
  unfold checkRange
  split_ifs
  · exact moves_pure _
  · exact moves_throwProtocol _

theorem moves_readNumber (w : IntWidth) : Moves (readNumber w) m p F := by
  refine moves_position_bind (moves_peek (fun _ _ => ?_) ?_)
  all_goals
    exact moves_takeDigits.bind fun _ _ _ => moves_ite (moves_throwProtocol _) (moves_checkRange _ _ _)

include hF in
theorem moves_readScalar : (s : Scalar) → Moves (readScalar fuel s) m p F
  | .bool => moves_readBool
  | .int w => moves_readNumber w
  | .string => moves_readString hF

/-! ### Arrays, by their items -/

/-- Behind an item: whether another one follows. -/
def nextItem : Get Bool := do
  consumeWhitespace
  let next ← getByte
  if next = closeBracket then return false
  else if next ≠ comma then throwProtocol .expectedCommaOrEnd
  else
    consumeWhitespace
    return true

/-- At the beginning of an array: whether it has an item. -/
def openList : Get Bool := do
  let c ← getByte
  if c ≠ openBracket then throwProtocol .expectedBracket
  else
    consumeWhitespace
    let c ← getByte
    if c = closeBracket then return false
    else
      advance (-1)
      return true

theorem readItems_succ (readItem : Get α) (fuel : Nat) :
    readItems readItem (fuel + 1) = readItem >>= fun a => nextItem >>= fun more =>
      if more then (a :: ·) <$> readItems readItem fuel else pure [a] := by
  rw [readItems, nextItem]
  simp only [bind_assoc]
  refine bind_congr fun a => bind_congr fun _ => bind_congr fun next => ?_
  split_ifs with hclose hcomma
  · rfl
  · rfl
  · rw [bind_assoc]
    rfl

theorem readList_eq (fuel : Nat) (readItem : Get α) :
    readList fuel readItem = openList >>= fun more =>
      if more then readItems readItem fuel else pure [] := by
  rw [readList, openList]
  simp only [bind_assoc]
  refine bind_congr fun c => ?_
  split_ifs with hopen
  · rfl
  · rw [bind_assoc]
    refine bind_congr fun _ => ?_
    rw [bind_assoc]
    refine bind_congr fun c => ?_
    split_ifs with hclose
    · rfl
    · rw [bind_assoc]
      rfl

theorem moves_nextItem : Moves nextItem m p F :=
  moves_consumeWhitespace.bind fun _ _ _ => moves_getByte_bind fun _ _ => moves_ite (moves_pure _) <|
    moves_ite (moves_throwProtocol _) <| moves_consumeWhitespace.bind fun _ _ _ => moves_pure _

/-- A separator is at least a character. -/
theorem nextItem_byteAt {more : Bool} (h : nextItem m p = .ok (more, q)) :
    ∃ p' c, p ≤ p' ∧ p' < q ∧ m.byteAt p' = some c := by
  rw [nextItem] at h
  obtain ⟨_, p₁, hblank, h⟩ := bind_ok_iff.mp h
  obtain ⟨next, _, hnext, h⟩ := bind_ok_iff.mp h
  obtain ⟨hbyte, rfl⟩ := getByte_eq_ok.mp hnext
  refine ⟨p₁, next, consumeWhitespace_le hblank, ?_, hbyte⟩
  split_ifs at h
  · exact (pure_eq_ok.mp h).2.le
  · cases h
  · obtain ⟨_, _, hblank', h⟩ := bind_ok_iff.mp h
    cases h
    exact consumeWhitespace_le hblank'

theorem moves_openList : Moves openList m p F := by
  refine moves_getByte_bind fun _ _ => moves_ite (moves_throwProtocol _) ?_
  exact moves_consumeWhitespace.bind fun _ _ _ => moves_peek (fun _ _ => moves_pure _) (moves_pure _)

/-- The positions of the items that stand at `p` and behind it. -/
inductive ItemAt {α : Type} (readItem : Get α) (m : Memory) : Nat → Nat → Prop
  | here (p : Nat) : ItemAt readItem m p p
  | later {p p₁ p₂ q : Nat} {a : α} : readItem m p = .ok (a, p₁) → nextItem m p₁ = .ok (true, p₂) →
      ItemAt readItem m p₂ q → ItemAt readItem m p q

/-- The positions of the items of the array at `p`. -/
def itemCalls (m : Memory) : CallSites := fun _ readItem p q =>
  ∃ p', openList m p = .ok (true, p') ∧ ItemAt readItem m p' q

section Items

variable {α : Type} {readItem : Get α}

/-- An array ends if its items do and none goes back. -/
theorem moves_readItems : ∀ {fuel p : Nat}, (Spent m p fuel → F) →
    (∀ q, ItemAt readItem m p q → Moves readItem m q F) → Moves (readItems readItem fuel) m p F
  | 0, _, hF, _ => moves_fail fun _ => hF spent_zero
  | fuel + 1, p, hF, hitem => by
    rw [readItems_succ]
    refine (hitem p (.here p)).bind_ok fun a p₁ ha hp₁ => moves_nextItem.bind_ok fun more p₂ hnext _ => ?_
    obtain ⟨_, c, hp', hlt, hc⟩ := nextItem_byteAt hnext
    cases more with
    | false => exact moves_pure _
    | true =>
      exact (moves_readItems (fun h => hF (h.step hc (hp₁.trans hp') hlt))
        fun q hq => hitem q (.later ha hnext hq)).map _

variable (hitem : ∀ q, itemCalls m α readItem p q → Moves readItem m q F)

include hF hitem

theorem moves_readList : Moves (readList fuel readItem) m p F := by
  rw [readList_eq]
  refine moves_openList.bind_ok fun more p' hopen _ => ?_
  cases more with
  | false => exact moves_pure _
  | true => exact moves_readItems (fun h => hF h.start) fun q hq => hitem q ⟨p', hopen, hq⟩

theorem moves_readArray (n : Option Nat) : Moves (readArray fuel n readItem) m p F := by
  refine (moves_readList hF hitem).bind fun as _ _ => ?_
  cases n with
  | none => exact moves_pure _
  | some n =>
    rw [assignArray]
    split_ifs
    · exact moves_pure _
    · exact moves_throwProtocol _

end Items

end Fuel

/-! ### Headers -/

theorem seekHeader_le {headerStart : Nat} (h : seekHeader m p = .ok (headerStart, q)) :
    p ≤ headerStart ∧ p ≤ q := by
  rw [seekHeader, position_bind] at h
  obtain ⟨_, _, hblank, h⟩ := bind_ok_iff.mp h
  have hp₁ := consumeWhitespace_le hblank
  rw [position_bind] at h
  obtain ⟨c, _, hc, h⟩ := bind_ok_iff.mp h
  obtain ⟨-, rfl⟩ := atIndex_eq_ok.mp hc
  split_ifs at h with hcomma
  · obtain ⟨_, _, hadvance, h⟩ := bind_ok_iff.mp h
    obtain ⟨_, _, hblank', h⟩ := bind_ok_iff.mp h
    have hp₃ := (moves_advance (F := True) 1).forward hadvance
    have hp₄ := consumeWhitespace_le hblank'
    cases h
    omega
  · cases h
    omega

/-- How much has been reported. -/
def entries (info : DeserialiserInfo) : Nat := info.exceptions.length + info.additionalFields.length

/-- At most `n` more exceptions. -/
def Adds (n : Nat) (info info' : DeserialiserInfo) : Prop :=
  info'.setFields = info.setFields ∧ entries info' ≤ entries info + n

theorem Adds.extends {n : Nat} (h : Adds n info info') : Extends info info' := by
  intro name bits hbits
  exact ⟨bits, by rw [h.1, hbits], rfl⟩

theorem handleDeserialisationError_eq_ok
    {e : ProtocolException} (h : handleDeserialisationError check info e m p = .ok (info', q)) :
    check ≠ .always ∧ p = q ∧ Adds 1 info info' ∧
      ∀ j e', ∃ j', handleDeserialisationError check j e' m p = .ok (j', p) ∧ Adds 1 j j' := by
  have hadds : ∀ (i : DeserialiserInfo) e, Adds 1 i { i with exceptions := i.exceptions ++ [e] } := by
    intro i e
    refine ⟨rfl, ?_⟩
    simp only [entries, length_append, length_singleton]
    omega
  cases check with
  | always => cases h
  | lenient =>
    cases h
    exact ⟨nofun, rfl, hadds _ _, fun j e' => ⟨_, rfl, hadds j e'⟩⟩
  | ignore =>
    cases h
    exact ⟨nofun, rfl, hadds _ _, fun j e' => ⟨_, rfl, hadds j e'⟩⟩

theorem reportIf_eq_ok {bad : Prop} [Decidable bad] {e : ProtocolException}
    (h : reportIf bad check info e m p = .ok (info', q)) :
    p = q ∧ Adds 1 info info' ∧ ∀ j, ∃ j', reportIf bad check j e m p = .ok (j', p) ∧ Adds 1 j j' := by
  unfold reportIf at h ⊢
  split_ifs at h ⊢ with hbad
  · obtain ⟨-, rfl, hadds, hagain⟩ := handleDeserialisationError_eq_ok h
    exact ⟨rfl, hadds, fun j => hagain j e⟩
  · cases h
    exact ⟨rfl, ⟨rfl, le_succ _⟩, fun j => ⟨j, rfl, rfl, le_succ _⟩⟩

/-- A header with a name says the same whatever it is read into. -/
theorem getNamed_eq_ok {f' : Field} (h : getNamed check info f m p = .ok ((info', f'), q)) :
    ∃ name c pos, p < pos ∧ m.data[pos]? = some c ∧ f' = namedField f name c pos ∧
      q = f'.dataStartPosition ∧ Adds 2 info info' ∧
      ∀ j g, ∃ j', getNamed check j g m p = .ok ((j', namedField g name c pos), q) ∧ Adds 2 j j' := by
  unfold getNamed at h ⊢
  obtain ⟨name, _, hkey, h⟩ := bind_ok_iff.mp h
  rw [position_bind] at h
  obtain ⟨_, _, hreport, h⟩ := bind_ok_iff.mp h
  obtain ⟨rfl, hinfo₁, hagain₁⟩ := reportIf_eq_ok hreport
  obtain ⟨_, _, hblank, h⟩ := bind_ok_iff.mp h
  obtain ⟨c, _, hc, h⟩ := bind_ok_iff.mp h
  rw [position_bind] at h
  obtain ⟨_, _, hreport', h⟩ := bind_ok_iff.mp h
  obtain ⟨rfl, hinfo₂, hagain₂⟩ := reportIf_eq_ok hreport'
  obtain ⟨_, p₆, hblank', h⟩ := bind_ok_iff.mp h
  rw [position_bind] at h
  obtain ⟨c', _, hc', h⟩ := bind_ok_iff.mp h
  obtain ⟨hbyte, rfl⟩ := atIndex_eq_ok.mp hc'
  rw [setPosition_bind] at h
  cases h
  have hp₁ := readKey_lt hkey
  have hp₃ := consumeWhitespace_le hblank
  have hp₄ := (getByte_eq_ok.mp hc).2
  have hp₆ := consumeWhitespace_le hblank'
  have htrans : ∀ {i i₁ i₂ : DeserialiserInfo}, Adds 1 i i₁ → Adds 1 i₁ i₂ → Adds 2 i i₂ :=
    fun h h' => ⟨h'.1.trans h.1, by have := h.2; have := h'.2; omega⟩
  refine ⟨name, c', p₆, by omega, hbyte, rfl, rfl, htrans hinfo₁ hinfo₂, fun j g => ?_⟩
  obtain ⟨j₁, hreport, hj₁⟩ := hagain₁ j
  obtain ⟨j₂, hreport', hj₂⟩ := hagain₂ j₁
  refine ⟨j₂, ?_, htrans hj₁ hj₂⟩
  rw [bind_of_ok hkey, position_bind, bind_of_ok hreport,
    bind_of_ok hblank, bind_of_ok hc, position_bind,
    bind_of_ok hreport', bind_of_ok hblank', position_bind, bind_of_ok hc', setPosition_bind]
  rfl

/-- The description is of data behind `p`, and does not know where the data
ends. An object is known by its brace. -/
structure Fresh (m : Memory) (p : Nat) (f : Field) : Prop where
  lt : p < f.dataStartPosition
  le_size : f.dataStartPosition ≤ m.size
  dataEnd : f.dataEndPosition = sizeMax
  brace : f.intDataType = startMarkerId → m.data[f.dataStartPosition - 1]? = some openBrace

/-- Two descriptions that differ at most in where the header began and in
the counter of members left. -/
structure SameData (f g : Field) : Prop where
  dataStartPosition : f.dataStartPosition = g.dataStartPosition
  dataEndPosition : f.dataEndPosition = g.dataEndPosition
  fieldName : f.fieldName = g.fieldName
  intDataType : f.intDataType = g.intDataType
  hierarchyDepth : f.hierarchyDepth = g.hierarchyDepth

theorem sameData_of_alike {g : Field} (h : f.Alike g) : SameData f g :=
  { h with }

/-- A header between `p` and `q`: where it begins, and what it does to the
description of a field. A malformed one does nothing. -/
structure Header (m : Memory) (check : ProtocolCheck) (p q : Nat) where
  headerStart : Nat
  describe : Field → Field
  headerStart_describe : ∀ f, (describe f).headerStart = f.headerStart
  le_headerStart : p ≤ headerStart
  lt_size : p < m.size
  le : p ≤ q
  advances : check = .always → p < q ∨ m.data[q]? = some openBrace
  fresh : (∀ f, Fresh m p (describe f)) ∨ describe = id
  alike : ∀ {f g}, SameData f g → f.headerStart = g.headerStart → (describe f).Alike (describe g)

namespace Header

variable {check : ProtocolCheck} {headerStart pos : Nat} {c : UInt8} (hstart : p ≤ headerStart)

def start (hpos : p ≤ pos) (hbrace : m.data[pos]? = some openBrace) : Header m check p pos where
  headerStart := headerStart
  describe f := markerField f startMarkerId (pos + 1)
  headerStart_describe _ := rfl
  le_headerStart := hstart
  lt_size := hpos.trans_lt (List.getElem?_eq_some_iff.mp hbrace).1
  le := hpos
  advances _ := .inr hbrace
  fresh := .inl fun _ => ⟨lt_succ_of_le hpos, (List.getElem?_eq_some_iff.mp hbrace).1, rfl,
    fun _ => hbrace⟩
  alike h h' := ⟨h', rfl, rfl, h.fieldName, rfl, h.hierarchyDepth⟩

def stop (hpos : p ≤ pos) (hbrace : m.data[pos]? = some closeBrace) :
    Header m check p (pos + 1) where
  headerStart := headerStart
  describe f := markerField f endMarkerId (pos + 1)
  headerStart_describe _ := rfl
  le_headerStart := hstart
  lt_size := hpos.trans_lt (List.getElem?_eq_some_iff.mp hbrace).1
  le := le_succ_of_le hpos
  advances _ := .inl (lt_succ_of_le hpos)
  fresh := .inl fun _ => ⟨lt_succ_of_le hpos, (List.getElem?_eq_some_iff.mp hbrace).1, rfl,
    fun h => absurd h (show endMarkerId ≠ startMarkerId by decide)⟩
  alike h h' := ⟨h', rfl, rfl, h.fieldName, rfl, h.hierarchyDepth⟩

theorem fresh_namedField (f : Field) (name : Bytes) (hpos : p < pos) (hc : m.data[pos]? = some c) :
    Fresh m p (namedField f name c pos) := by
  have hlt := (List.getElem?_eq_some_iff.mp hc).1
  unfold namedField
  split_ifs with hopen
  · exact ⟨hpos.trans (lt_succ_self pos), hlt, rfl, fun _ => hopen ▸ hc⟩
  · exact ⟨hpos, hlt.le, rfl, fun h => absurd h otherId_ne⟩

def named (name : Bytes) (hpos : p < pos) (hc : m.data[pos]? = some c)
    (hq : q = if c = openBrace then pos + 1 else pos) : Header m check p q where
  headerStart := headerStart
  describe f := namedField f name c pos
  headerStart_describe _ := rfl
  le_headerStart := hstart
  lt_size := hpos.trans (List.getElem?_eq_some_iff.mp hc).1
  le := by split_ifs at hq <;> omega
  advances _ := .inl (by split_ifs at hq <;> omega)
  fresh := .inl fun f => fresh_namedField f name hpos hc
  alike h h' := ⟨h', rfl, rfl, rfl, rfl, h.hierarchyDepth⟩

def malformed (hpos : p ≤ q) (hlt : q < m.size) (hcheck : check ≠ .always) :
    Header m check p q where
  headerStart := headerStart
  describe := id
  headerStart_describe _ := rfl
  le_headerStart := hstart
  lt_size := hpos.trans_lt hlt
  le := hpos
  advances h := absurd h hcheck
  fresh := .inr rfl
  alike h h' := { h with headerStart := h' }

end Header

/-- All that a header can do, whatever it is read into. -/
theorem getHeader_eq_ok {f' : Field} (h : getHeader check info f m p = .ok ((info', f'), q)) :
    ∃ H : Header m check p q, f' = H.describe { f with headerStart := H.headerStart } ∧
      Adds 2 info info' ∧ ∀ j g, ∃ j', getHeader check j g m p =
        .ok ((j', H.describe { g with headerStart := H.headerStart }), q) ∧ Adds 2 j j' := by
  unfold getHeader at h ⊢
  obtain ⟨headerStart, pos, hseek, h⟩ := bind_ok_iff.mp h
  obtain ⟨hstart, hpos⟩ := seekHeader_le hseek
  rw [position_bind] at h
  obtain ⟨c, _, hidx, h⟩ := bind_ok_iff.mp h
  obtain ⟨hc, rfl⟩ := atIndex_eq_ok.mp hidx
  have hagain : ∀ (j : DeserialiserInfo) (g : Field), (seekHeader >>= fun headerStart =>
      ByteReader.position >>= fun position => atIndex position >>= fun c =>
        getHeaderAt check j { g with headerStart := headerStart } position c) m p =
      getHeaderAt check j { g with headerStart := headerStart } pos c m pos := by
    intro j g
    rw [bind_of_ok hseek, position_bind, bind_of_ok hidx]
  have hnothing : ∀ i : DeserialiserInfo, Adds 2 i i := fun i => ⟨rfl, le_add_right _ _⟩
  simp only [hagain]
  unfold getHeaderAt at h ⊢
  split_ifs at h ⊢ with hopen hclose hquote
  · obtain ⟨hres, rfl⟩ := pure_eq_ok.mp h
    cases hres
    exact ⟨.start hstart hpos (hopen ▸ hc), rfl, hnothing _, fun j g => ⟨j, rfl, hnothing j⟩⟩
  · rw [setPosition_bind] at h
    obtain ⟨hres, rfl⟩ := pure_eq_ok.mp h
    cases hres
    exact ⟨.stop hstart hpos (hclose ▸ hc), rfl, hnothing _, fun j g => ⟨j, rfl, hnothing j⟩⟩
  · obtain ⟨name, _, _, hlt, hc', rfl, hq, hadds, hagain'⟩ := getNamed_eq_ok h
    exact ⟨.named hstart name (hpos.trans_lt hlt) hc' hq, rfl, hadds, fun j g => hagain' j _⟩
  · obtain ⟨_, _, hreport, h⟩ := bind_ok_iff.mp h
    obtain ⟨hcheck, rfl, hadds, hagain'⟩ := handleDeserialisationError_eq_ok hreport
    obtain ⟨hres, rfl⟩ := pure_eq_ok.mp h
    cases hres
    have hlt := (List.getElem?_eq_some_iff.mp hc).1
    refine ⟨.malformed hstart hpos hlt hcheck, rfl, ⟨hadds.1, by have := hadds.2; omega⟩, fun j g => ?_⟩
    obtain ⟨j', hreport', hj'⟩ := hagain' j (.unexpectedCharacter c pos)
    exact ⟨j', by rw [bind_of_ok hreport']; rfl, hj'.1, by have := hj'.2; omega⟩

theorem ends_readKey : Ends readKey m p := by
  refine ends_getByte.bind fun _ _ _ => ends_ite (fun _ => ends_throwProtocol _) fun _ => ?_
  refine ends_bind_ok rfl <| ends_bind_ok rfl <| (ends_atIndex _).bind fun _ _ _ => ?_
  refine ends_ite (fun _ => (ends_atIndex _).bind fun _ _ _ => ends_throwProtocol _) fun _ => ?_
  exact ends_bind_ok rfl <| ends_asString _ _

theorem ends_reportIf {bad : Prop} [Decidable bad] (check : ProtocolCheck) (info : DeserialiserInfo)
    (e : ProtocolException) : Ends (reportIf bad check info e) m p := by
  refine ends_ite (fun _ => ?_) fun _ => ends_pure _
  cases check with
  | always => exact ends_throwProtocol _
  | lenient => exact ends_pure _
  | ignore => exact ends_pure _

theorem ends_getHeader (check : ProtocolCheck) (info : DeserialiserInfo) (field : Field) :
    Ends (getHeader check info field) m p := by
  have hnamed : ∀ info field p, Ends (getNamed check info field) m p := by
    intro info field p
    refine ends_readKey.bind fun _ _ _ => ends_bind_ok rfl <| (ends_reportIf _ _ _).bind
      fun _ _ _ => ends_bind_ok rfl <| ends_getByte.bind fun _ _ _ => ?_
    refine ends_bind_ok rfl <| (ends_reportIf _ _ _).bind fun _ _ _ =>
      ends_bind_ok rfl <| ends_bind_ok rfl <| ?_
    exact (ends_atIndex _).bind fun _ _ _ => ends_bind_ok rfl <| ends_pure _
  have hreport : ∀ e p, Ends (handleDeserialisationError check info e) m p := by
    intro e p
    have hreport : Ends (reportIf True check info e) m p := ends_reportIf check info e
    rwa [reportIf, if_pos trivial] at hreport
  refine Ends.bind ?_ fun _ _ _ => ends_bind_ok rfl <| (ends_atIndex _).bind fun _ _ _ => ?_
  · refine ends_bind_ok rfl <| ends_bind_ok rfl <|
      ends_bind_ok rfl <| (ends_atIndex _).bind fun _ _ _ => ?_
    exact ends_ite (fun _ => ends_bind_ok rfl <|
      ends_bind_ok rfl fun h => by cases h) fun _ => ends_pure _
  · unfold getHeaderAt
    refine ends_ite (fun _ => ends_pure _) fun _ => ends_ite
      (fun _ => ends_bind_ok rfl <| ends_pure _) fun _ => ?_
    exact ends_ite (fun _ => hnamed _ _ _) fun _ =>
      (hreport _ _).bind fun _ _ _ => ends_pure _

theorem moves_getHeader (check : ProtocolCheck) (info : DeserialiserInfo) (field : Field) :
    Moves (getHeader check info field) m p F := by
  refine ⟨fun h => ?_, fun he => absurd he (ends_getHeader check info field)⟩
  obtain ⟨H, -⟩ := getHeader_eq_ok h
  exact H.le

/-! ### Values -/

theorem readList_brace {fuel : Nat} {readItem : Get α} {as : List α}
    (hbrace : m.data[p]? = some openBrace) : readList fuel readItem m p ≠ .ok (as, q) := by
  intro h
  rw [readList, bind_of_ok (getByte_at (Memory.at_of_getElem? hbrace)), if_pos (by decide)] at h
  cases h

/-- No value begins with a brace: behind the header of an object, its brace
has been read. -/
theorem get_brace (fuel : Nat) : (t : ValueTy) → {field : Field} → {old v : t.Val} → {q : Nat} →
    m.data[p]? = some openBrace → get fuel t field old m p ≠ .ok (v, q)
  | .scalar s, _, _, _, _, hbrace, h => readScalar_brace hbrace h
  | .array n s, _, _, _, _, hbrace, h | .set s, _, _, _, _, hbrace, h => by
    obtain ⟨_, _, hlist, -⟩ := bind_ok_iff.mp h
    exact readList_brace hbrace hlist
  | .multiArray s n, field, _, _, _, hbrace, h => by
    obtain ⟨_, hhdr⟩ := getHeader_start (Memory.at_of_getElem? hbrace) .always {}
      (objectField field otherId)
    rw [get, getMultiArray, bind_of_ok hhdr] at h
    dsimp only at h
    rw [if_pos (.inl (show startMarkerId ≠ otherId by decide))] at h
    cases h
  | .map _ .string value, field, _, _, _, hbrace, h => by
    obtain ⟨_, hhdr⟩ := getHeader_start (Memory.at_of_getElem? hbrace) .always {}
      (objectField field (typeId value))
    rw [get] at h
    cases fuel with
    | zero => cases h
    | succ fuel =>
      rw [getEntries, bind_of_ok hhdr] at h
      dsimp only at h
      split_ifs at h with hend
      · exact absurd hend (show startMarkerId ≠ endMarkerId by decide)
      obtain ⟨_, _, hread, -⟩ := bind_ok_iff.mp h
      exact get_brace _ value hbrace hread
  | .map _ .bool _, _, _, _, _, _, h => nomatch h
  | .map _ (.int _) _, _, _, _, _, _, h => nomatch h

/-- A map ends: behind the brace of an object that has no name, no value is
read, so each round takes a character. -/
theorem moves_getEntries {V : Type} {d : V} {read : Field → V → Get V}
    (hread : ∀ field v p, Moves (read field v) m p F)
    (hbrace : ∀ {field v p a q}, m.data[p]? = some openBrace → read field v m p ≠ .ok (a, q)) :
    ∀ {fuel p : Nat} {value : SortedMap Bytes V} {field : Field}, (Spent m p fuel → F) →
      Moves (getEntries d read fuel value field) m p F
  | 0, _, _, _, hF => moves_fail fun _ => hF spent_zero
  | fuel + 1, p, value, field, hF => by
    rw [getEntries]
    refine (moves_getHeader _ _ _).bind_ok fun header p₁ hhdr hp₁ => moves_ite (moves_pure _) <|
      (hread _ _ _).bind_ok fun v p₂ hv hp₂ => moves_getEntries hread hbrace fun h => hF ?_
    obtain ⟨H, -⟩ := getHeader_eq_ok hhdr
    obtain ⟨c, hc⟩ := byteAt_of_lt H.lt_size
    refine h.step hc le_rfl ?_
    rcases H.advances rfl with hlt | hopen
    · omega
    · exact absurd hv (hbrace hopen)

section Fuel

variable {fuel : Nat} (hF : Spent m 0 fuel → F)

include hF

theorem moves_getMultiArray (s : Scalar) (n : Nat) (field : Field) :
    Moves (getMultiArray fuel s n field) m p F := by
  refine (moves_getHeader _ _ _).bind fun _ _ _ => moves_ite (moves_throwProtocol _) ?_
  refine (moves_readArray hF (fun _ _ => moves_readNumber _) _).bind fun _ _ _ => ?_
  refine (moves_getHeader _ _ _).bind fun _ _ _ => moves_ite (moves_throwProtocol _) ?_
  refine (moves_readArray hF (fun _ _ => moves_readScalar hF s) _).bind fun _ _ _ => ?_
  exact (moves_getHeader _ _ _).bind fun _ _ _ => moves_ite (moves_throwProtocol _) (moves_pure _)

theorem moves_get : (t : ValueTy) → (field : Field) → (old : t.Val) → (p : Nat) →
    Moves (get fuel t field old) m p F
  | .scalar s, _, _, _ => moves_readScalar hF s
  | .array n s, _, _, _ => moves_readArray hF (fun _ _ => moves_readScalar hF s) n
  | .set s, _, _, _ =>
    (moves_readList hF fun _ _ => moves_readScalar hF s).bind fun _ _ _ => moves_pure _
  | .multiArray s _, _, _, _ => moves_getMultiArray hF s _ _
  | .map _ .string value, _, _, _ =>
    moves_getEntries (moves_get value) (get_brace fuel value) fun h => hF h.start
  | .map _ .bool _, _, _, _ => moves_throwProtocol _
  | .map _ (.int _) _, _, _, _ => moves_throwProtocol _

end Fuel

/-! ### Skipped values -/

theorem moves_skipNumber : ∀ {fuel p : Nat}, (Spent m p fuel → F) → Moves (skipNumber fuel) m p F
  | 0, _, hF => moves_fail fun _ => hF spent_zero
  | fuel + 1, p, hF => by
    have hpeek := moves_peek (c := fun c => isNumberChar c = true)
      (fun c hc => moves_skipNumber fun h => hF (h.step hc le_rfl (lt_succ_self p)))
      (moves_pure ())
    exact hpeek

theorem moves_skip (n : Nat) : Moves (skip n) m p F := by
  refine moves_position_bind <| moves_size_bind <| moves_ite (moves_fail nofun) ⟨fun {_ q} h => ?_, nofun⟩
  have hq : toSize ((p : Int) + n) = q := (Prod.mk.inj (Except.ok.inj h)).2
  rw [← Int.natCast_add, toSize_natCast] at hq
  omega

section Skipping

variable {skipInner : Get Unit} {fuel : Nat}

theorem moves_skipField (hF : Spent m 0 fuel → F) (hinner : ∀ q, p ≤ q → Moves skipInner m q F) :
    Moves (skipField fuel skipInner) m p F := by
  refine moves_consumeWhitespace.bind fun _ p₁ hp₁ => (moves_readString hF).bind fun _ p₂ hp₂ =>
    moves_consumeWhitespace.bind fun _ p₃ hp₃ => moves_getByte_bind fun _ _ => ?_
  refine moves_ite (moves_throwProtocol _) <| moves_consumeWhitespace.bind fun _ p₄ hp₄ =>
    (hinner p₄ (by omega)).bind fun _ _ _ => moves_consumeWhitespace

/-- Behind an element of an object or an array: either is closed, or a comma
is taken and the loop goes on. -/
theorem moves_separator {closing : UInt8} {e : ProtocolException} {r : Get Unit}
    (hr : ∀ c, m.byteAt p = some c → ∀ q, p < q → Moves r m q F) :
    Moves (position >>= fun position => atIndex position >>= fun c =>
      if c = closing then pure () else getByte >>= fun c =>
        if c ≠ comma then throwProtocol e else consumeWhitespace >>= fun _ => r) m p F :=
  moves_position_bind <| moves_atIndex_bind fun _ => moves_ite (moves_pure _) <|
    moves_getByte_bind fun c hc => moves_ite (moves_throwProtocol _) <|
      moves_consumeWhitespace.bind fun _ q hq => hr c hc q hq

theorem moves_skipFields (hF : Spent m 0 fuel → F) : ∀ {rounds p : Nat}, (Spent m p rounds → F) →
    (∀ q, p ≤ q → Moves skipInner m q F) → Moves (skipFields fuel skipInner rounds) m p F
  | 0, _, hrnds, _ => moves_fail fun _ => hrnds spent_zero
  | rounds + 1, p, hrnds, hinner => by
    refine moves_position_bind <| moves_atIndex_bind fun _ => moves_ite (moves_pure _) <|
      (moves_skipField hF hinner).bind fun _ p₁ hp₁ => moves_separator fun c hc q hq => ?_
    exact moves_skipFields hF (fun h => hrnds (h.step hc hp₁ hq)) fun q' hq' => hinner q' (by omega)

theorem moves_skipEntries : ∀ {rounds p : Nat}, (Spent m p rounds → F) →
    (∀ q, p ≤ q → Moves skipInner m q F) → Moves (skipEntries skipInner rounds) m p F
  | 0, _, hrnds, _ => moves_fail fun _ => hrnds spent_zero
  | rounds + 1, p, hrnds, hinner => by
    refine moves_position_bind <| moves_atIndex_bind fun _ => moves_ite (moves_pure _) <|
      (hinner p le_rfl).bind fun _ p₁ hp₁ => moves_consumeWhitespace.bind fun _ p₂ hp₂ =>
        moves_separator fun c hc q hq => ?_
    exact moves_skipEntries (fun h => hrnds (h.step hc (hp₁.trans hp₂) hq))
      fun q' hq' => hinner q' (by omega)

variable (hF : Spent m 0 fuel → F)
  (hinner : ∀ c, m.byteAt p = some c → ∀ q, p < q → Moves skipInner m q F)

include hF hinner

/-- Behind the brace. -/
theorem moves_skipObject_rest {c : UInt8} (hc : m.byteAt p = some c) :
    Moves (if c ≠ openBrace then throwProtocol .expectedObject
      else consumeWhitespace >>= fun _ => skipFields fuel skipInner fuel >>= fun _ =>
        skip 1 >>= fun _ => consumeWhitespace) m (p + 1) F := by
  refine moves_ite (moves_throwProtocol _) <| moves_consumeWhitespace.bind fun _ p₁ hp₁ => ?_
  refine (moves_skipFields hF (fun h => hF h.start) fun q hq => hinner c hc q (by omega)).bind
    fun _ _ _ => ?_
  exact (moves_skip 1).bind fun _ _ _ => moves_consumeWhitespace

/-- An object is at least its brace. -/
theorem skipObject_lt (h : skipObject fuel skipInner m p = .ok ((), q)) : p < q := by
  obtain ⟨c, _, hc, h⟩ := bind_ok_iff.mp h
  obtain ⟨hbyte, rfl⟩ := getByte_eq_ok.mp hc
  exact (moves_skipObject_rest hF hinner hbyte).forward h

theorem moves_skipObject : Moves (skipObject fuel skipInner) m p F :=
  moves_getByte_bind fun _ hc => moves_skipObject_rest hF hinner hc

theorem moves_skipArray : Moves (skipArray fuel skipInner) m p F := by
  refine moves_getByte_bind fun c hc => moves_ite (moves_throwProtocol _) <|
    moves_consumeWhitespace.bind fun _ p₁ hp₁ => ?_
  refine (moves_skipEntries (fun h => hF h.start) fun q hq => hinner c hc q (by omega)).bind
    fun _ _ _ => ?_
  exact (moves_advance 1).bind fun _ _ _ => moves_consumeWhitespace

end Skipping

/-- An object in an object begins a character later. -/
theorem moves_skipValue {fuel : Nat} (hF : Spent m 0 fuel → F) : ∀ {depth p : Nat},
    (Spent m p depth → F) → Moves (skipValue fuel depth) m p F
  | 0, _, hdep => moves_fail fun _ => hdep spent_zero
  | depth + 1, p, hdep => by
    refine moves_consumeWhitespace.bind fun _ p₁ hp₁ => moves_position_bind <|
      moves_atIndex_bind fun _ => ?_
    have hinner : ∀ c, m.byteAt p₁ = some c → ∀ q, p₁ < q → Moves (skipValue fuel depth) m q F :=
      fun _ hc _ hq => moves_skipValue hF fun h => hdep (h.step hc hp₁ hq)
    refine moves_ite (moves_skipObject hF hinner) <| moves_ite (moves_skipArray hF hinner) <|
      moves_ite ((moves_readString hF).bind fun _ _ _ => moves_pure _) ?_
    refine (moves_startsWord _).bind fun _ _ _ => moves_ite (moves_advance 5) ?_
    refine (moves_startsWord _).bind fun _ _ _ => moves_ite (moves_advance 4) ?_
    exact (moves_startsWord _).bind fun _ _ _ => moves_ite (moves_advance 4)
      (moves_skipNumber fun h => hF h.start)

theorem skipValue_brace {fuel depth : Nat} (hbrace : m.data[p]? = some openBrace)
    (h : skipValue fuel depth m p = .ok ((), q)) : p < q := by
  cases depth with
  | zero => cases h
  | succ depth =>
    have hat := Memory.at_of_getElem? hbrace
    rw [skipValue, bind_of_ok (consumeWhitespace_none (by decide) hat),
      position_bind, bind_of_ok (atIndex_at hat p), if_pos rfl] at h
    exact skipObject_lt (fun _ => trivial) (fun _ _ _ _ =>
      moves_skipValue (fun _ => trivial) fun _ => trivial) h

/-! ## They can be replayed -/

theorem getEntries_replay {V : Type} {d d' : V} {read read' : Field → V → Get V}
    (hread : ∀ {f g v p a q}, f.hierarchyDepth = g.hierarchyDepth → read f v m p = .ok (a, q) →
      ∀ v', ∃ a', read' g v' m p = .ok (a', q)) :
    ∀ {fuel p q : Nat} {value result : SortedMap Bytes V} {f : Field} (g : Field)
      (value' : SortedMap Bytes V), SameData f g →
      getEntries d read fuel value f m p = .ok (result, q) →
      ∃ result', getEntries d' read' fuel value' g m p = .ok (result', q)
  | 0, _, _, _, _, _, _, _, _, h => by cases h
  | fuel + 1, p, q, value, result, f, g, value', hfg, h => by
    rw [getEntries] at h ⊢
    obtain ⟨⟨_, _⟩, _, hhdr, h⟩ := bind_ok_iff.mp h
    obtain ⟨H, rfl, -, hagain⟩ := getHeader_eq_ok hhdr
    obtain ⟨_, hhdr', -⟩ := hagain {} g
    have halike := H.alike (f := { f with headerStart := H.headerStart })
      (g := { g with headerStart := H.headerStart })
      { hfg with } rfl
    rw [bind_of_ok hhdr']
    dsimp only at h ⊢
    rw [← halike.intDataType]
    split_ifs at h ⊢ with hend
    · cases h
      exact ⟨value', rfl⟩
    · obtain ⟨v, _, hv, h⟩ := bind_ok_iff.mp h
      obtain ⟨v', hv'⟩ := hread halike.hierarchyDepth hv _
      rw [bind_of_ok hv']
      exact getEntries_replay hread _ _ (sameData_of_alike halike) h

/-- The text alone decides how far a value is read. -/
theorem get_replay (fuel : Nat) : (t : ValueTy) → {f g : Field} → {old v : t.Val} → {p q : Nat} →
    f.hierarchyDepth = g.hierarchyDepth → get fuel t f old m p = .ok (v, q) → (old' : t.Val) →
    ∃ v', get fuel t g old' m p = .ok (v', q)
  | .scalar _, _, _, _, v, _, _, _, h, _ => ⟨v, h⟩
  | .array _ _, _, _, _, v, _, _, _, h, _ => ⟨v, h⟩
  | .set _, _, _, _, v, _, _, _, h, _ => ⟨v, h⟩
  | .multiArray _ _, _, _, _, v, _, _, hdep, h, _ => by
    rw [get, objectField, hdep] at h
    exact ⟨v, h⟩
  | .map _ .string value, _, _, _, _, _, _, hdep, h, old' => by
    rw [get] at h ⊢
    refine getEntries_replay (get_replay fuel value) _ _ ?_ h
    exact ⟨rfl, rfl, rfl, rfl, congrArg (· + 1) hdep⟩
  | .map _ .bool _, _, _, _, _, _, _, _, h, _ => nomatch h
  | .map _ (.int _) _, _, _, _, _, _, _, _, h, _ => nomatch h

variable {abi : Abi} {fuel : Nat}

theorem replaying : Replaying (json abi fuel) m SameData where
  of_alike := sameData_of_alike
  depth h := h.hierarchyDepth
  getHeader {f g} _ _ _ _ _ _ hfg h := by
    obtain ⟨H, rfl, hadds, hagain⟩ := getHeader_eq_ok h
    refine ⟨hadds.extends, fun j => ?_⟩
    obtain ⟨j', hhdr, hj'⟩ := hagain j g
    refine ⟨j', _, hhdr, H.alike ?_ rfl, hj'.extends⟩
    exact { hfg with }
  getStart hfg h := by
    cases h
    exact ⟨_, rfl, hfg⟩
  getLeaf old' p v f' q hfg h := by
    obtain ⟨v, hv, hpair⟩ := map_ok_iff.mp h
    cases hpair
    obtain ⟨v', hv'⟩ := get_replay fuel _ hfg.hierarchyDepth hv old'
    exact ⟨v', _, map_of_ok hv' _, hfg⟩
  getStructs _ _ as _ _ h := ⟨as, h⟩
  skipOther hskip _ h := by
    cases hskip
    exact h

theorem readItems_outOfFuel {readItem : Get α} {p q : Nat} (h : ItemAt readItem m p q)
    (hitem : readItem m q = .error .outOfFuel) (fuel : Nat) :
    readItems readItem fuel m p = .error .outOfFuel := by
  induction h generalizing fuel with
  | here p =>
    cases fuel with
    | zero => rfl
    | succ fuel =>
      rw [readItems_succ]
      exact bind_of_error hitem _
  | later ha hnext _ ih =>
    cases fuel with
    | zero => rfl
    | succ fuel =>
      rw [readItems_succ, bind_of_ok ha, bind_of_ok hnext, if_pos rfl]
      exact map_of_error (ih hitem fuel) _

theorem callsOutOfFuel : CallsFail (json abi fuel) m (itemCalls m) .outOfFuel := by
  rintro α n f d _ _ p q ⟨_, hopen, hitem⟩ hone
  refine bind_of_error ?_ _
  rw [readList_eq, bind_of_ok hopen, if_pos rfl]
  exact readItems_outOfFuel hitem hone fuel

end OpenCmw.Io.Json
