import OpenCmw.IoSerialiser

/-!
# The loops of a deserialiser

`detail::deserialise` reads a struct in a loop over its fields, and starts
a loop of its own for each nested struct and for each element of an array
of structs. `Config` is one of these loops with what it has read so far
and its position; `Reached` are the loops of a run, each in the states it
goes through.

The header of a field may say that its data ends before the header, so a
loop can come back to where it has been. `NoReturn` says that none does.
Then every loop ends, because the buffer has only so many positions
(`ends_readRoot`). Conversely a loop that comes back does so for ever: a
round depends on the value and on the bit fields only in ways that do not
change from one visit to the next (`Replays`), so it can be replayed.
-/

namespace OpenCmw.Io

open ByteReader Relation

/-! ## Members by their index -/

/-- What stands at an index of a list of members. -/
inductive MemberKind
  | leaf (name : Identifier) (holder : Holder) (ty : ValueTy)
  | nested (name : Identifier) (holder : Holder) (typeName : Bytes) (inner : Members)
  | structs (name : Identifier) (holder : Holder) (n : Option Nat) (typeName : Bytes)
      (inner : Members)
  | none

@[reducible] def MemberKind.Val : MemberKind → Type
  | leaf _ h ty => Slot h ty.Val
  | nested _ h _ inner => Slot h inner.Val
  | structs _ h n _ inner => Slot h (Seq n inner.Val)
  | none => Unit

variable (P : SerialiserProtocol)

/-- One element of an array of structs. -/
def Members.readElement (fuel : Nat) (typeName : Bytes) (inner : Members) : Get inner.Val :=
  (·.1) <$> readRoot P .lenient (inner.reader P fuel .lenient typeName) fuel inner.default

/-- The member alone. -/
def MemberKind.read (fuel : Nat) (check : ProtocolCheck)
    (ctx : MemberContext) : (k : MemberKind) → k.Val → Field → DeserialiserInfo →
    Get (k.Val × Field × DeserialiserInfo)
  | leaf name _ ty, x, field, info =>
    readPlain P check ctx name.bytes (P.typeId ty) ty.default (P.getLeaf ty) x field info
  | nested name _ typeName inner, x, field, info =>
    readNested P check (inner.reader P fuel check typeName) fuel ctx (sanitizeFieldName name.bytes)
      inner.default x field info
  | structs name _ n typeName inner, x, field, info =>
    readPlain P check ctx name.bytes P.structsId (Seq.default inner.default n)
      (fun field old => (fun as => (as, field)) <$>
        P.getStructs n field inner.default (inner.readElement P fuel typeName) old) x field info
  | none, x, field, info => pure (x, field, info)

namespace Members

def kindAt : Members → Nat → MemberKind
  | nil, _ => .none
  | leaf name h ty _, 0 => .leaf name h ty
  | leaf _ _ _ rest, i + 1 => rest.kindAt i
  | nested name h typeName inner _, 0 => .nested name h typeName inner
  | nested _ _ _ _ rest, i + 1 => rest.kindAt i
  | structs name h n typeName inner _, 0 => .structs name h n typeName inner
  | structs _ _ _ _ _ rest, i + 1 => rest.kindAt i

def getAt : (ms : Members) → (i : Nat) → ms.Val → (ms.kindAt i).Val
  | nil, _, _ => ()
  | leaf _ _ _ _, 0, (x, _) => x
  | leaf _ _ _ rest, i + 1, (_, xs) => rest.getAt i xs
  | nested _ _ _ _ _, 0, (x, _) => x
  | nested _ _ _ _ rest, i + 1, (_, xs) => rest.getAt i xs
  | structs _ _ _ _ _ _, 0, (x, _) => x
  | structs _ _ _ _ _ rest, i + 1, (_, xs) => rest.getAt i xs

def setAt : (ms : Members) → (i : Nat) → ms.Val → (ms.kindAt i).Val → ms.Val
  | nil, _, _, _ => ()
  | leaf _ _ _ _, 0, (_, xs), y => (y, xs)
  | leaf _ _ _ rest, i + 1, (x, xs), y => (x, rest.setAt i xs y)
  | nested _ _ _ _ _, 0, (_, xs), y => (y, xs)
  | nested _ _ _ _ rest, i + 1, (x, xs), y => (x, rest.setAt i xs y)
  | structs _ _ _ _ _ _, 0, (_, xs), y => (y, xs)
  | structs _ _ _ _ _ rest, i + 1, (x, xs), y => (x, rest.setAt i xs y)

/-- Reading a member reads it alone and puts it back. -/
theorem readMember_eq (P : SerialiserProtocol) (fuel : Nat) (check : ProtocolCheck)
    (ctx : MemberContext) (field : Field) (info : DeserialiserInfo) : ∀ (ms : Members) (i : Nat)
    (v : ms.Val), ms.readMember P fuel check ctx i v field info =
      (fun r => (ms.setAt i v r.1, r.2)) <$>
        (ms.kindAt i).read P fuel check ctx (ms.getAt i v) field info
  | nil, _, _ => (map_pure ..).symm
  | leaf .., 0, (_, _) | nested .., 0, (_, _) | structs .., 0, (_, _) => rfl
  | leaf _ _ _ rest, i + 1, (x, xs) | nested _ _ _ _ rest, i + 1, (x, xs)
  | structs _ _ _ _ _ rest, i + 1, (x, xs) => by
    rw [readMember, readMember_eq P fuel check ctx field info rest i xs, Functor.map_map]
    rfl

end Members

/-- The members of a struct that a member leads to. -/
def MemberKind.inner? : MemberKind → Option Members
  | nested _ _ _ inner => some inner
  | structs _ _ _ _ inner => some inner
  | _ => Option.none

theorem Members.sizeOf_inner {inner : Members} : ∀ (ms : Members) {i : Nat},
    (ms.kindAt i).inner? = some inner → sizeOf inner < sizeOf ms
  | nil, _, h | leaf .., 0, h => by cases h
  | nested .., 0, h | structs .., 0, h => by
    cases h
    simp only [nested.sizeOf_spec, structs.sizeOf_spec]
    omega
  | leaf _ _ _ rest, i + 1, h | nested _ _ _ _ rest, i + 1, h
  | structs _ _ _ _ _ rest, i + 1, h => by
    have hrest := sizeOf_inner rest h
    simp only [leaf.sizeOf_spec, nested.sizeOf_spec, structs.sizeOf_spec]
    omega

/-! ## Skipping a field -/

/-- The part of `skipUnknownField` that moves the position. -/
def skipData (field : Field) : Get Unit :=
  if field.dataEndPosition ≠ sizeMax then moveToFieldEndBufferPosition field
  else
    match P.skipOther with
    | none => pure ()
    | some skip =>
      if field.intDataType = P.startId then
        setPosition (toSize ((field.dataStartPosition : Int) - 1)) >>= fun _ => skip field
      else skip field

/-- The part that takes note of the field. -/
def noteField (check : ProtocolCheck) (parentName : Bytes) (field : Field) (info : DeserialiserInfo) :
    DeserialiserInfo :=
  if check = .ignore then info else
    { info with
      additionalFields := info.additionalFields ++
        [(parentName ++ str "::" ++ field.fieldName, field.intDataType)] }

theorem skipUnknownField_eq (P : SerialiserProtocol) (check : ProtocolCheck) (parentName : Bytes)
    (field : Field) (info : DeserialiserInfo) :
    skipUnknownField P check parentName field info =
      position >>= fun position => size >>= fun size =>
        handleUnlessIgnored check info
          (.missingField field.intDataType parentName field.fieldName position size) >>= fun info =>
        skipData P field >>= fun _ => pure (noteField check parentName field info) := by
  unfold skipUnknownField skipData
  refine bind_congr fun position => bind_congr fun size => bind_congr fun info => ?_
  by_cases hend : field.dataEndPosition ≠ sizeMax
  · rw [if_pos hend, if_pos hend]
    rfl
  · rw [if_neg hend, if_neg hend]
    cases P.skipOther with
    | none => exact (pure_bind ..).symm
    | some skip =>
      dsimp only
      by_cases hstart : field.intDataType = P.startId
      · rw [if_pos hstart, if_pos hstart, bind_assoc]
        rfl
      · rw [if_neg hstart, if_neg hstart]
        rfl

/-! ## Loops and their states -/

/-- A loop over the fields of a struct. -/
structure Loop where
  typeName : Bytes
  members : Members
  check : ProtocolCheck
  parentName : Bytes

/-- What a loop goes on with, and its position. -/
abbrev Loop.State (L : Loop) : Type := LoopState L.members.Val × Nat

/-- A loop on its way. -/
abbrev Config : Type := Σ L : Loop, L.State

/-- Where the elements of an array of structs are read: the reader of one,
the position of the array, the position of an element. -/
abbrev CallSites : Type 1 := (α : Type) → Get α → Nat → Nat → Prop

/-- Where a protocol has no arrays of structs. -/
def noCalls : CallSites := fun _ _ _ _ => False

section Loops

variable (P : SerialiserProtocol) (fuel : Nat) (m : Memory)

def Loop.step (L : Loop) :
    LoopState L.members.Val → Get (LoopState L.members.Val ⊕ L.members.Val × DeserialiserInfo) :=
  readRound P L.check (L.members.reader P fuel L.check L.typeName) L.parentName

/-- A round behind a header that is no end: the field is skipped, or the
member of its name is read. -/
def Loop.follow (L : Loop) (value : L.members.Val) (previousSubFields : Int)
    (info : DeserialiserInfo) (field : Field) : Get (LoopState L.members.Val) :=
  match findMemberIndex L.members.names field.fieldName with
  | none => do
    let info ← skipUnknownField P L.check L.parentName field info
    return ⟨value, field, info⟩
  | some index => do
    let (x, field, info) ← (L.members.kindAt index).read P fuel L.check
      ⟨L.parentName, index, previousSubFields⟩ (L.members.getAt index value) field info
    let info ← skipToDataEnd L.check field info
    return ⟨L.members.setAt index value x, field, info⟩

variable (check : ProtocolCheck) (typeName : Bytes)

/-- The name of the outermost struct on the wire is its type, or nothing. -/
def checkTypeName (info : DeserialiserInfo) (field : Field) : Get DeserialiserInfo :=
  if field.hierarchyDepth = 0 ∧ field.fieldName ≠ typeName ∧ field.fieldName ≠ [] then
    handleUnlessIgnored check info (.unexpectedType typeName field.fieldName)
  else pure info

/-- `readStruct` up to its loop. -/
def startStruct (n : Nat) (parent : Field)
    (info : DeserialiserInfo) : Get (DeserialiserInfo × Field) := do
  let info := initSetFields check parent.fieldName n info
  let size ← size
  let field := newFieldHeader size [] parent.hierarchyDepth P.structId (-1)
  let (info, field) ← P.getHeader check info field
  let info ← checkTypeName check typeName info field
  let field ← P.getStart field
  setPosition field.dataStartPosition
  return (info, field)

theorem readStruct_eq_start (check : ProtocolCheck) {α : Type} (R : StructReader α) (parent : Field)
    (value : α) (info : DeserialiserInfo) :
    readStruct P check R fuel parent value info =
      startStruct P check R.typeName R.names.length parent info >>= fun s =>
        readFields P check R parent.fieldName fuel value s.2 s.1 := by
  unfold readStruct startStruct checkTypeName
  simp only [bind_assoc]
  refine bind_congr fun size => bind_congr fun header => ?_
  split_ifs with hname
  · simp only [pure_bind]
  · simp only [pure_bind]

/-- The loop of a struct whose header stands at `p`. -/
def StructBegins (ms : Members) (parent : Field)
    (value : ms.Val) (info : DeserialiserInfo) (p : Nat) (c : Config) : Prop :=
  ∃ info' field' p', startStruct P check typeName ms.names.length parent info m p =
      .ok ((info', field'), p') ∧
    c = ⟨⟨typeName, ms, check, parent.fieldName⟩, ⟨value, field', info'⟩, p'⟩

/-- The loop of a struct that is read as a message of its own. -/
def RootBegins (ms : Members) (value : ms.Val) (p : Nat) (c : Config) : Prop :=
  ∃ info q, P.checkHeaderInfo check {} m p = .ok (info, q) ∧
    ¬ (check = .lenient ∧ info.exceptions ≠ []) ∧
    StructBegins P m check typeName ms (newFieldHeader m.size rootName 0 P.structId (-1)) value info q c

/-- The loops that a member starts. -/
def MemberKind.Enters (calls : CallSites) (check : ProtocolCheck) : (k : MemberKind) → k.Val →
    Field → DeserialiserInfo → Config → Prop
  | nested name _ typeName inner, x, field, info, c =>
    StructBegins P m check typeName inner (field.enter P.startId (sanitizeFieldName name.bytes))
      (x.getOrCreate inner.default) info field.headerStart c
  | structs _ _ _ typeName inner, _, field, _, c =>
    (P.structsId = field.intDataType ∨ P.structsId = P.otherId) ∧
      ∃ q, calls _ (inner.readElement P fuel typeName) field.dataStartPosition q ∧
        RootBegins P m .lenient typeName inner inner.default q c
  | _, _, _, _, _ => False

/-- A round reads a member that starts a loop. -/
def Enters (calls : CallSites) (c c' : Config) : Prop :=
  c.2.2 < m.size ∧ ∃ info field q index,
    P.getHeader c.1.check c.2.1.info c.2.1.field m c.2.2 = .ok ((info, field), q) ∧
    field.intDataType ≠ P.endId ∧ findMemberIndex c.1.members.names field.fieldName = some index ∧
    (c.1.members.kindAt index).Enters P fuel m calls c.1.check (c.1.members.getAt index c.2.1.value)
      field info c'

/-- The loops of a run that comes to the loop `c`. -/
inductive Reached (calls : CallSites) (c : Config) : Config → Prop
  | refl : Reached calls c c
  | next {L : Loop} {x y : L.State} : Reached calls c ⟨L, x⟩ → Next (L.step P fuel) m x y →
      Reached calls c ⟨L, y⟩
  | enter {c' c'' : Config} : Reached calls c c' → Enters P fuel m calls c' c'' →
      Reached calls c c''

/-- No loop comes back to a position where it has read a header. -/
def NoReturn (calls : CallSites) (c : Config) : Prop :=
  ∀ (L : Loop) (x y : L.State), Reached P fuel m calls c ⟨L, x⟩ →
    TransGen (Next (L.step P fuel) m) x y → x.2 ≠ y.2

end Loops

section Reached

variable {P : SerialiserProtocol} {fuel : Nat} {m : Memory} {calls : CallSites} {c c' c'' : Config}

theorem Reached.trans (h : Reached P fuel m calls c c') (h' : Reached P fuel m calls c' c'') :
    Reached P fuel m calls c c'' := by
  induction h' with
  | refl => exact h
  | next _ hnext ih => exact ih.next hnext
  | enter _ henter ih => exact ih.enter henter

theorem Reached.of_reflTransGen {L : Loop} {x y : L.State}
    (h : ReflTransGen (Next (L.step P fuel) m) x y) : Reached P fuel m calls ⟨L, x⟩ ⟨L, y⟩ := by
  induction h with
  | refl => exact .refl
  | tail _ hnext ih => exact ih.next hnext

theorem NoReturn.of_reached (h : NoReturn P fuel m calls c) (hc : Reached P fuel m calls c c') :
    NoReturn P fuel m calls c' :=
  fun L x y hx hxy => h L x y (hc.trans hx) hxy

end Reached

/-! ## One round -/

section Round

variable {P : SerialiserProtocol} {fuel : Nat} {m : Memory} {L : Loop}

theorem Loop.step_eq (s : LoopState L.members.Val) :
    L.step P fuel s = position >>= fun position => size >>= fun size =>
      if position < size then
        P.getHeader L.check s.info s.field >>= fun header =>
          setPosition header.2.dataStartPosition >>= fun _ =>
            if header.2.intDataType = P.endId then pure (.inr (s.value, header.1))
            else .inl <$> L.follow P fuel s.value s.field.subfields header.1 header.2
      else
        (fun info => .inr (s.value, info)) <$>
          checkBufferEnd L.check (L.members.reader P fuel L.check L.typeName) s.field s.info := by
  refine bind_congr fun position => bind_congr fun size => ?_
  by_cases hp : position < size
  · rw [if_pos hp, if_pos hp]
    refine bind_congr fun header => bind_congr fun _ => ?_
    by_cases hend : header.2.intDataType = P.endId
    · rw [if_pos hend, if_pos hend]
    · rw [if_neg hend, if_neg hend, Loop.follow]
      have hnames : (L.members.reader P fuel L.check L.typeName).names = L.members.names := rfl
      rw [hnames]
      cases findMemberIndex L.members.names header.2.fieldName with
      | none => rw [map_bind]; rfl
      | some index =>
        have hread : (L.members.reader P fuel L.check L.typeName).readMember =
          L.members.readMember P fuel L.check := rfl
        dsimp only
        rw [hread, Members.readMember_eq, bind_map_left, map_bind]
        refine bind_congr fun r => ?_
        rw [map_bind]
        rfl
  · rw [if_neg hp, if_neg hp, map_eq_pure_bind]

/-- All that a round can do. -/
theorem Loop.step_eq_ok {s : LoopState L.members.Val} {p q : Nat}
    {o : LoopState L.members.Val ⊕ L.members.Val × DeserialiserInfo} :
    L.step P fuel s m p = .ok (o, q) ↔
      (p < m.size ∧ ∃ info field p', P.getHeader L.check s.info s.field m p =
          .ok ((info, field), p') ∧
        ((field.intDataType = P.endId ∧ o = .inr (s.value, info) ∧ q = field.dataStartPosition) ∨
          (field.intDataType ≠ P.endId ∧ ∃ s', o = .inl s' ∧
            L.follow P fuel s.value s.field.subfields info field m field.dataStartPosition =
              .ok (s', q)))) ∨ (¬ p < m.size ∧ ∃ info, o = .inr (s.value, info) ∧
        checkBufferEnd L.check (L.members.reader P fuel L.check L.typeName) s.field s.info m p =
          .ok (info, q)) := by
  rw [Loop.step_eq, position_bind, size_bind]
  by_cases hp : p < m.size
  · rw [if_pos hp, bind_ok_iff]
    constructor
    · rintro ⟨⟨info, field⟩, p', hhdr, h⟩
      refine .inl ⟨hp, info, field, p', hhdr, ?_⟩
      rw [setPosition_bind] at h
      split_ifs at h with hend
      · cases h
        exact .inl ⟨hend, rfl, rfl⟩
      · obtain ⟨s', hs', rfl⟩ := map_ok_iff.mp h
        exact .inr ⟨hend, s', rfl, hs'⟩
    · rintro (⟨-, info, field, p', hhdr, h⟩ | ⟨hp', -⟩)
      · refine ⟨(info, field), p', hhdr, ?_⟩
        rw [setPosition_bind]
        rcases h with ⟨hend, rfl, rfl⟩ | ⟨hend, s', rfl, hs'⟩
        · rw [if_pos hend]
          rfl
        · rw [if_neg hend]
          exact map_of_ok hs' _
      · exact absurd hp hp'
  · rw [if_neg hp, map_ok_iff]
    constructor
    · rintro ⟨info, hinfo, rfl⟩
      exact .inr ⟨hp, info, rfl, hinfo⟩
    · rintro (⟨hp', -⟩ | ⟨-, info, rfl, hinfo⟩)
      · exact absurd hp' hp
      · exact ⟨info, hinfo, rfl⟩

/-- A round that goes on has read a header in the buffer. -/
theorem next_iff {x y : L.State} : Next (L.step P fuel) m x y ↔ x.2 < m.size ∧ ∃ info field p',
      P.getHeader L.check x.1.info x.1.field m x.2 = .ok ((info, field), p') ∧
      field.intDataType ≠ P.endId ∧
      L.follow P fuel x.1.value x.1.field.subfields info field m field.dataStartPosition =
        .ok (y.1, y.2) := by
  rw [Next, Loop.step_eq_ok]
  constructor
  · rintro (⟨hp, info, field, p', hhdr, ⟨-, ho, -⟩ | ⟨hend, _, ho, hfollow⟩⟩ | ⟨-, info, ho, -⟩)
    · cases ho
    · cases ho
      exact ⟨hp, info, field, p', hhdr, hend, hfollow⟩
    · cases ho
  · rintro ⟨hp, info, field, p', hhdr, hend, hfollow⟩
    exact .inl ⟨hp, info, field, p', hhdr, .inr ⟨hend, y.1, rfl, hfollow⟩⟩

end Round

/-! ## Loops that end -/

/-- The readers of the protocol itself end, those of arrays of structs if
the elements do and none goes back. -/
structure Ending (P : SerialiserProtocol) (fuel : Nat) (m : Memory) (calls : CallSites) : Prop where
  checkHeaderInfo : ∀ check info p, Ends (P.checkHeaderInfo check info) m p
  getHeader : ∀ check info field p, Ends (P.getHeader check info field) m p
  getStart : ∀ field p, Ends (P.getStart field) m p
  getLeaf : ∀ t field old p, Ends (P.getLeaf t field old) m p
  getStructs : ∀ {α : Type} n field (d : α) readOne old p,
    (∀ q, calls α readOne p q → Ends readOne m q ∧ ∀ a q', readOne m q = .ok (a, q') → q ≤ q') →
    Ends (P.getStructs n field d readOne old) m p
  skipOther : ∀ skip, P.skipOther = some skip → ∀ field p, Ends (skip field) m p
  element : ∀ {typeName inner p q a q'}, calls _ (Members.readElement P fuel typeName inner) p q →
    inner.readElement P fuel typeName m q = .ok (a, q') → q ≤ q'

section Ending

variable {P : SerialiserProtocol} {fuel : Nat} {m : Memory} {calls : CallSites}
  {check : ProtocolCheck} {info : DeserialiserInfo} {field : Field} {p : Nat}

theorem ends_getByte : Ends getByte m p := by
  unfold Ends getByte
  cases m.byteAt p with
  | none => exact nofun
  | some b => exact nofun

theorem ends_throwProtocol {α : Type} (e : ProtocolException) :
    Ends (throwProtocol e : Get α) m p := ends_fail nofun

theorem ends_handleUnlessIgnored (e : ProtocolException) :
    Ends (handleUnlessIgnored check info e) m p := by
  refine ends_ite (fun _ => ends_pure _) fun _ => ?_
  cases check with
  | always => exact ends_throwProtocol e
  | lenient => exact ends_pure _
  | ignore => exact ends_pure _

theorem ends_moveToFieldEndBufferPosition : Ends (moveToFieldEndBufferPosition field) m p :=
  ends_ite (fun _ => nofun) fun _ => ends_pure _

theorem ends_markSet (name : Bytes) (index : Nat) : Ends (markSet check name index info) m p := by
  refine ends_ite (fun _ => ends_pure _) fun _ => ?_
  cases info.setFields.find? name with
  | none => exact ends_fail nofun
  | some bits =>
    exact ends_ite (fun _ => ends_pure _) fun _ => ends_fail nofun

variable (hP : Ending P fuel m calls)
include hP

theorem ends_skipData : Ends (skipData P field) m p := by
  refine ends_ite (fun _ => ends_moveToFieldEndBufferPosition) fun _ => ?_
  cases hskip : P.skipOther with
  | none => exact ends_pure _
  | some skip =>
    exact ends_ite (fun _ => ends_bind_ok rfl <| hP.skipOther skip hskip _ _)
      fun _ => hP.skipOther skip hskip _ _

theorem ends_skipUnknownField (parentName : Bytes) :
    Ends (skipUnknownField P check parentName field info) m p := by
  rw [skipUnknownField_eq]
  exact ends_bind_ok rfl <| ends_bind_ok rfl <|
    (ends_handleUnlessIgnored _).bind fun _ _ _ => (ends_skipData hP).bind fun _ _ _ =>
      ends_pure _

omit hP

theorem ends_skipToDataEnd : Ends (skipToDataEnd check field info) m p := by
  refine ends_bind_ok rfl <| ends_ite (fun _ => ?_) fun _ => ends_pure _
  exact (ends_handleUnlessIgnored _).bind fun _ _ _ =>
    ends_moveToFieldEndBufferPosition.bind fun _ _ _ => ends_pure _

theorem ends_readPlain {α : Type} {d : α} {h : Holder} {x : Slot h α} (ctx : MemberContext)
    (name : Bytes) {requestedType : UInt8} {read : Field → α → Get (α × Field)}
    (hread : requestedType = field.intDataType ∨ requestedType = P.otherId →
      Ends (read field (x.getOrCreate d)) m p) :
    Ends (readPlain P check ctx name requestedType d read x field info) m p := by
  refine ends_ite (fun _ => ?_) fun htype => ?_
  · exact ends_moveToFieldEndBufferPosition.bind fun _ _ _ =>
      (ends_handleUnlessIgnored _).bind fun _ _ _ => ends_pure _
  · refine (hread (by tauto)).bind fun _ _ _ => ?_
    exact (ends_markSet _ _).bind fun _ _ _ => ends_pure _

include hP

theorem ends_startStruct (typeName : Bytes) (n : Nat) (parent : Field) :
    Ends (startStruct P check typeName n parent info) m p := by
  exact ends_bind_ok rfl <| (hP.getHeader _ _ _ _).bind fun _ _ _ =>
    (ends_ite (fun _ => ends_handleUnlessIgnored _) fun _ => ends_pure _).bind
      fun _ _ _ => (hP.getStart _ _).bind fun _ _ _ => ends_bind_ok rfl <|
        ends_pure _

/-- A struct is read to its end if its loop goes on to an end. -/
theorem ends_readStruct {typeName : Bytes} {ms : Members} {parent : Field}
    {value : ms.Val} (hloop : ∀ c, StructBegins P m check typeName ms parent value info p c →
      Ends (iterate (c.1.step P fuel) fuel c.2.1) m c.2.2) :
    Ends (readStruct P check (ms.reader P fuel check typeName) fuel parent value info) m p := by
  rw [readStruct_eq_start]
  refine (ends_startStruct hP typeName _ parent).bind fun s q hstart => ?_
  rw [readFields_eq_iterate]
  exact hloop _ ⟨s.1, s.2, q, hstart, rfl⟩

theorem ends_readRoot {typeName : Bytes} {ms : Members} {value : ms.Val}
    (hloop : ∀ c, RootBegins P m check typeName ms value p c →
      Ends (iterate (c.1.step P fuel) fuel c.2.1) m c.2.2) :
    Ends (readRoot P check (ms.reader P fuel check typeName) fuel value) m p := by
  refine (hP.checkHeaderInfo _ _ _).bind fun info q hinfo => ?_
  refine ends_ite (fun _ => ends_pure _) fun hlenient => ?_
  refine Ends.bind nofun fun size q' hsize => ?_
  cases hsize
  exact ends_readStruct hP fun c hc => hloop c ⟨info, q, hinfo, hlenient, hc⟩

/-- A member is read to its end if the loops it starts go on to an end. -/
theorem MemberKind.ends_read (ctx : MemberContext) (k : MemberKind) (x : k.Val)
    (hloop : ∀ c, k.Enters P fuel m calls check x field info c →
      Ends (iterate (c.1.step P fuel) fuel c.2.1) m c.2.2) :
    Ends (k.read P fuel check ctx x field info) m field.dataStartPosition := by
  cases k with
  | none => exact ends_pure _
  | leaf name h ty => exact ends_readPlain _ _ fun _ => hP.getLeaf _ _ _ _
  | nested name h typeName inner =>
    refine Ends.bind nofun fun _ q hq => ?_
    obtain rfl := (Prod.mk.inj (Except.ok.inj hq)).2
    refine (ends_readStruct hP hloop).bind fun _ _ _ => ?_
    exact (ends_markSet _ _).bind fun _ _ _ => ends_pure _
  | structs name h n typeName inner =>
    rw [MemberKind.read]
    refine ends_readPlain _ _ fun htype => ?_
    refine Ends.map (hP.getStructs _ _ _ _ _ _ fun q hq => ⟨Ends.map ?_ _, fun a q' => hP.element hq⟩) _
    exact ends_readRoot hP fun c hc => hloop c ⟨htype, q, hq, hc⟩

/-- A round ends if the loops it starts go on to an end. -/
theorem ends_step (L : Loop) (x : L.State) (hloop : ∀ c, Enters P fuel m calls ⟨L, x⟩ c →
      Ends (iterate (c.1.step P fuel) fuel c.2.1) m c.2.2) : Ends (L.step P fuel x.1) m x.2 := by
  obtain ⟨s, p⟩ := x
  rw [Loop.step_eq]
  refine Ends.bind nofun fun _ _ hpos => Ends.bind nofun fun _ _ hsize => ?_
  cases hpos
  cases hsize
  refine ends_ite (fun hp => ?_) fun _ => ?_
  · refine (hP.getHeader _ _ _ _).bind fun header q hhdr => Ends.bind nofun fun _ q' hq' => ?_
    obtain rfl := (Prod.mk.inj (Except.ok.inj hq')).2
    refine ends_ite (fun _ => ends_pure _) fun hend => Ends.map ?_ _
    unfold Loop.follow
    cases hidx : findMemberIndex L.members.names header.2.fieldName with
    | none =>
      exact (ends_skipUnknownField hP _).bind fun _ _ _ => ends_pure _
    | some index =>
      refine Ends.bind ?_ fun _ _ _ => ends_skipToDataEnd.bind fun _ _ _ => ends_pure _
      refine MemberKind.ends_read hP _ _ _ fun c hc => hloop c ?_
      exact ⟨hp, header.1, header.2, q, index, hhdr, hend, hidx, hc⟩
  · refine Ends.map ?_ _
    refine ends_bind_ok rfl <| ends_bind_ok rfl <| ?_
    exact ends_ite (fun _ => ends_handleUnlessIgnored _) fun _ => ends_pure _

omit hP

/-- The members of a loop that a round starts are part of its own. -/
theorem Enters.sizeOf_lt {c c' : Config} (h : Enters P fuel m calls c c') :
    sizeOf c'.1.members < sizeOf c.1.members := by
  obtain ⟨-, info, field, q, _, -, -, -, henters⟩ := h
  have hinner : ∀ (k : MemberKind) (x : k.Val), k.Enters P fuel m calls c.1.check x field info c' →
      k.inner? = some c'.1.members := by
    intro k x hk
    cases k with
    | none => exact hk.elim
    | leaf name h ty => exact hk.elim
    | nested name h typeName inner =>
      obtain ⟨_, _, _, -, rfl⟩ := hk
      rfl
    | structs name h n typeName inner =>
      obtain ⟨-, _, -, _, _, -, -, _, _, _, -, rfl⟩ := hk
      rfl
  exact Members.sizeOf_inner _ (hinner _ _ henters)

/-- If no loop comes back, every loop ends: by induction on the members, as
the loops that a loop starts are over parts of them. -/
theorem ends_loop (hP : Ending P fuel m calls) (hfuel : m.size < fuel) (c : Config)
    (h : NoReturn P fuel m calls c) : Ends (iterate (c.1.step P fuel) fuel c.2.1) m c.2.2 := by
  induction hn : sizeOf c.1.members using Nat.strong_induction_on generalizing c with
  | h n ih =>
    obtain ⟨L, x⟩ := c
    refine ends_iterate (fun y hy => ?_) (fun y z hy hyz => ?_)
      (fun y z hy hyz => h L y z (.of_reflTransGen hy) hyz) hfuel
    · refine ends_step hP L y fun c hc => ih _ (hn ▸ hc.sizeOf_lt) c ?_ rfl
      exact h.of_reached ((Reached.of_reflTransGen hy).enter hc)
    · exact (next_iff.mp hyz).1

end Ending

/-! ## Rounds that can be replayed -/

/-- All the bit fields of `info` are there, equally long. -/
def Extends (info info' : DeserialiserInfo) : Prop :=
  ∀ name bits, info.setFields.find? name = some bits →
    ∃ bits', info'.setFields.find? name = some bits' ∧ bits'.length = bits.length

theorem Extends.refl (info : DeserialiserInfo) : Extends info info :=
  fun _ bits h => ⟨bits, h, rfl⟩

theorem Extends.trans {info info' info'' : DeserialiserInfo} (h : Extends info info')
    (h' : Extends info' info'') : Extends info info'' := by
  intro name bits hfind
  obtain ⟨bits', hfind', hlen'⟩ := h name bits hfind
  obtain ⟨bits'', hfind'', hlen''⟩ := h' name bits' hfind'
  exact ⟨bits'', hfind'', hlen''.trans hlen'⟩

/-- A bit field is stored that is as long as the one it replaces. -/
theorem extends_insert {info : DeserialiserInfo} {name : Bytes} {bits : List Bool}
    (h : ∀ bits', info.setFields.find? name = some bits' → bits.length = bits'.length) :
    Extends info { info with setFields := info.setFields.insert name bits } := by
  intro other bits' hfind
  by_cases hother : other = name
  · exact ⟨bits, by rw [find?_insert, if_pos hother], h bits' (hother ▸ hfind)⟩
  · exact ⟨bits', by rw [find?_insert, if_neg hother, hfind], rfl⟩

theorem extends_initSetFields (check : ProtocolCheck) (name : Bytes) (n : Nat)
    (info : DeserialiserInfo) : Extends info (initSetFields check name n info) := by
  unfold initSetFields
  split_ifs with hcheck
  · exact .refl info
  · cases hfind : info.setFields.find? name with
    | none => exact extends_insert fun bits' hbits' => by rw [hfind] at hbits'; cases hbits'
    | some bits =>
      refine extends_insert fun bits' hbits' => ?_
      obtain rfl := Option.some.inj (hfind.symm.trans hbits')
      exact List.length_map ..

/-- Two descriptions that differ at most in the counter of members left. -/
structure Field.Alike (f g : Field) : Prop where
  headerStart : f.headerStart = g.headerStart
  dataStartPosition : f.dataStartPosition = g.dataStartPosition
  dataEndPosition : f.dataEndPosition = g.dataEndPosition
  fieldName : f.fieldName = g.fieldName
  intDataType : f.intDataType = g.intDataType
  hierarchyDepth : f.hierarchyDepth = g.hierarchyDepth

theorem Field.Alike.refl (f : Field) : f.Alike f := ⟨rfl, rfl, rfl, rfl, rfl, rfl⟩

/-- What a reader of the protocol has done once it does again: from the same
position, whatever the object holds and whatever has been reported. `F`
tells which of the descriptions a round begins with lead to the same. -/
structure Replaying (P : SerialiserProtocol) (m : Memory) (F : Field → Field → Prop) : Prop where
  of_alike : ∀ {f g}, f.Alike g → F f g
  depth : ∀ {f g}, F f g → f.hierarchyDepth = g.hierarchyDepth
  getHeader : ∀ {f g check info p info' f' q}, F f g →
    P.getHeader check info f m p = .ok ((info', f'), q) → Extends info info' ∧
      ∀ j, ∃ j' g', P.getHeader check j g m p = .ok ((j', g'), q) ∧ f'.Alike g' ∧ Extends j j'
  getStart : ∀ {f g p f' q}, f.Alike g → P.getStart f m p = .ok (f', q) →
    ∃ g', P.getStart g m p = .ok (g', q) ∧ f'.Alike g'
  getLeaf : ∀ {t f g} {old : t.Val} (old' : t.Val) {p v f' q}, f.Alike g →
    P.getLeaf t f old m p = .ok ((v, f'), q) →
    ∃ v' g', P.getLeaf t g old' m p = .ok ((v', g'), q) ∧ f'.Alike g'
  getStructs : ∀ {α : Type} {n f g} {d : α} {readOne old} (old' : Seq n α) {p as q}, f.Alike g →
    P.getStructs n f d readOne old m p = .ok (as, q) →
    ∃ as', P.getStructs n g d readOne old' m p = .ok (as', q)
  skipOther : ∀ {skip f g p q}, P.skipOther = some skip → f.Alike g →
    skip f m p = .ok ((), q) → skip g m p = .ok ((), q)

section Redo

variable {α β γ : Type} {m : Memory} {p q : Nat} {v : α → DeserialiserInfo}
  {w : β → DeserialiserInfo} {R : α → α → Prop} {S : β → β → Prop} {i j : DeserialiserInfo}
  {r r' : Get α}

/-- What `r` has done from the report `i` is done again by `r'` from the
report `j`, if the bit fields that `r` has left are all in `j`. `v` is the
report in a result, and `R` relates the two results. -/
def Redo (m : Memory) (v : α → DeserialiserInfo) (R : α → α → Prop) (i : DeserialiserInfo)
    (r : Get α) (j : DeserialiserInfo) (r' : Get α) (p : Nat) : Prop :=
  ∀ a q, r m p = .ok (a, q) → Extends i (v a) ∧
    (Extends (v a) j → ∃ b, r' m p = .ok (b, q) ∧ R a b ∧ Extends j (v b))

theorem redo_pure {a b : α} (hi : Extends i (v a)) (hj : Extends j (v b)) (hR : R a b) :
    Redo m v R i (pure a) j (pure b) p := by
  intro c q h
  cases h
  exact ⟨hi, fun _ => ⟨b, rfl, hR, hj⟩⟩

theorem Redo.bind {k k' : α → Get β} (h : Redo m v R i r j r' p) (hR : ∀ a, R a a)
    (hk : ∀ a b q, R a b → Redo m w S (v a) (k a) (v b) (k' b) q) :
    Redo m w S i (r >>= k) j (r' >>= k') p := by
  intro c q hc
  obtain ⟨a, p', ha, hc⟩ := bind_ok_iff.mp hc
  have hgrown := (hk a a p' (hR a) c q hc).1
  refine ⟨(h a _ ha).1.trans hgrown, fun hj => ?_⟩
  obtain ⟨b, hb, hab, hjb⟩ := (h a _ ha).2 (hgrown.trans hj)
  obtain ⟨c', hc', hcc', hjc⟩ := (hk a b p' hab c q hc).2 (hj.trans hjb)
  exact ⟨c', (bind_of_ok hb _).trans hc', hcc', hjb.trans hjc⟩

/-- A part that neither needs the report nor adds to it. -/
theorem redo_lift {r r' : Get γ} {T : γ → γ → Prop} {k k' : γ → Get β}
    (h : ∀ {a q}, r m p = .ok (a, q) → ∃ b, r' m p = .ok (b, q) ∧ T a b)
    (hk : ∀ a b q, T a b → Redo m w S i (k a) j (k' b) q) :
    Redo m w S i (r >>= k) j (r' >>= k') p := by
  intro c q hc
  obtain ⟨a, p', ha, hc⟩ := bind_ok_iff.mp hc
  obtain ⟨b, hb, hab⟩ := h ha
  obtain ⟨hgrown, hagain⟩ := hk a b p' hab c q hc
  exact ⟨hgrown, fun hj => by rw [bind_of_ok hb]; exact hagain hj⟩

theorem redo_same {r : Get γ} {k k' : γ → Get β} (hk : ∀ a q, Redo m w S i (k a) j (k' a) q) :
    Redo m w S i (r >>= k) j (r >>= k') p :=
  redo_lift (fun h => ⟨_, h, rfl⟩) fun _ b q hab => hab ▸ hk b q

theorem Redo.map {g g' : α → β} (h : Redo m v R i r j r' p) (hw : ∀ a, w (g a) = v a)
    (hw' : ∀ a, w (g' a) = v a) (hS : ∀ a b, R a b → S (g a) (g' b)) :
    Redo m w S i (g <$> r) j (g' <$> r') p := by
  intro c q hc
  obtain ⟨a, ha, rfl⟩ := map_ok_iff.mp hc
  rw [hw]
  refine ⟨(h a _ ha).1, fun hj => ?_⟩
  obtain ⟨b, hb, hab, hjb⟩ := (h a _ ha).2 hj
  exact ⟨g' b, map_of_ok hb _, hS a b hab, (hw' b).symm ▸ hjb⟩

theorem Redo.mono {i' j' : DeserialiserInfo} (h : Redo m v R i' r j' r' p) (hi : Extends i i')
    (hj : Extends j j') : Redo m v R i r j r' p := by
  intro a q ha
  refine ⟨hi.trans (h a _ ha).1, fun hext => ?_⟩
  obtain ⟨b, hb, hab, hjb⟩ := (h a _ ha).2 (hext.trans hj)
  exact ⟨b, hb, hab, hj.trans hjb⟩

theorem redo_ite {c : Prop} [Decidable c] {s s' : Get α} (h : Redo m v R i r j r' p)
    (h' : Redo m v R i s j s' p) :
    Redo m v R i (if c then r else s) j (if c then r' else s') p := by
  split_ifs
  · exact h
  · exact h'

theorem redo_position {k k' : Nat → Get α} (h : Redo m v R i (k p) j (k' p) p) :
    Redo m v R i (position >>= k) j (position >>= k') p := h

theorem redo_size {k k' : Nat → Get α} (h : Redo m v R i (k m.size) j (k' m.size) p) :
    Redo m v R i (size >>= k) j (size >>= k') p := h

theorem redo_setPosition {k k' : Unit → Get α} (h : Redo m v R i (k ()) j (k' ()) q) :
    Redo m v R i (setPosition q >>= k) j (setPosition q >>= k') p := h

end Redo

section Replaying

variable {P : SerialiserProtocol} {fuel : Nat} {m : Memory} {F : Field → Field → Prop}
  {check : ProtocolCheck} {info j : DeserialiserInfo} {p : Nat}

theorem redo_handleUnlessIgnored {e e' : ProtocolException} :
    Redo m id (fun _ _ => True) info (handleUnlessIgnored check info e) j
      (handleUnlessIgnored check j e') p := by
  intro info' q h
  cases check with
  | always => cases h
  | lenient =>
    cases h
    exact ⟨.refl info, fun _ => ⟨_, rfl, trivial, .refl j⟩⟩
  | ignore =>
    cases h
    exact ⟨.refl info, fun _ => ⟨_, rfl, trivial, .refl j⟩⟩

/-- The bit can be set in every longer run of bit fields. -/
theorem redo_markSet {name : Bytes} {index : Nat} :
    Redo m id (fun _ _ => True) info (markSet check name index info) j
      (markSet check name index j) p := by
  intro info' q h
  unfold markSet at h ⊢
  by_cases hcheck : check = .ignore
  · rw [if_pos hcheck] at h
    cases h
    exact ⟨.refl info, fun _ => ⟨j, by rw [if_pos hcheck]; rfl, trivial, .refl j⟩⟩
  · rw [if_neg hcheck] at h
    have hset : ∀ {bits : List Bool} {i : DeserialiserInfo}, i.setFields.find? name = some bits →
        Extends i { i with setFields := i.setFields.insert name (bits.set index true) } := by
      intro bits i hfind
      refine extends_insert fun bits' hbits' => ?_
      obtain rfl := Option.some.inj (hfind.symm.trans hbits')
      exact List.length_set
    cases hfind : info.setFields.find? name with
    | none =>
      rw [hfind] at h
      cases h
    | some bits =>
      rw [hfind] at h
      dsimp only at h
      split_ifs at h with hidx
      · cases h
        refine ⟨hset hfind, fun hj => ?_⟩
        obtain ⟨bits', hfind', hlen⟩ := (hset hfind).trans hj name bits hfind
        refine ⟨{ j with setFields := j.setFields.insert name (bits'.set index true) }, ?_, trivial,
          hset hfind'⟩
        rw [if_neg hcheck, hfind']
        dsimp only
        rw [if_pos (hlen ▸ hidx)]
        rfl
      · cases h

variable {f g : Field} {L : Loop} {x y : L.State}

theorem moveToFieldEndBufferPosition_alike (h : f.Alike g) :
    moveToFieldEndBufferPosition f = moveToFieldEndBufferPosition g := by
  rw [moveToFieldEndBufferPosition, moveToFieldEndBufferPosition, h.dataEndPosition]

variable (hP : Replaying P m F)
include hP

theorem skipData_replay {q : Nat} (hfg : f.Alike g)
    (h : skipData P f m p = .ok ((), q)) : skipData P g m p = .ok ((), q) := by
  unfold skipData at h ⊢
  rw [← hfg.dataEndPosition, ← hfg.intDataType, ← hfg.dataStartPosition,
    ← moveToFieldEndBufferPosition_alike hfg]
  by_cases hend : f.dataEndPosition ≠ sizeMax
  · rw [if_pos hend] at h ⊢
    exact h
  · rw [if_neg hend] at h ⊢
    cases hskip : P.skipOther with
    | none =>
      rw [hskip] at h
      exact h
    | some skip =>
      rw [hskip] at h
      dsimp only at h ⊢
      split_ifs at h ⊢ with hstart
      · rw [setPosition_bind] at h ⊢
        exact hP.skipOther hskip hfg h
      · exact hP.skipOther hskip hfg h

theorem redo_skipUnknownField (hfg : f.Alike g) (parentName : Bytes) :
    Redo m id (fun _ _ => True) info (skipUnknownField P check parentName f info) j
      (skipUnknownField P check parentName g j) p := by
  have hnote : ∀ f i, Extends i (noteField check parentName f i) := by
    intro f i
    unfold noteField
    split_ifs
    · exact .refl i
    · exact .refl i
  rw [skipUnknownField_eq, skipUnknownField_eq]
  refine redo_position (redo_size (redo_handleUnlessIgnored.bind (fun _ => trivial) fun i j q _ => ?_))
  exact redo_lift (T := fun _ _ => True) (fun h => ⟨(), skipData_replay hP hfg h, trivial⟩)
    fun _ _ _ _ => redo_pure (hnote f i) (hnote g j) trivial

omit hP

theorem redo_skipToDataEnd (hfg : f.Alike g) :
    Redo m id (fun _ _ => True) info (skipToDataEnd check f info) j (skipToDataEnd check g j) p := by
  unfold skipToDataEnd
  rw [hfg.dataEndPosition, moveToFieldEndBufferPosition_alike hfg]
  refine redo_position (redo_ite ?_ (redo_pure (.refl _) (.refl _) trivial))
  refine redo_handleUnlessIgnored.bind (fun _ => trivial) fun i j q _ => ?_
  exact redo_same fun _ _ => redo_pure (.refl i) (.refl j) trivial

/-- What the reader of a member leaves: descriptions that are alike. -/
def MembersAlike {α : Type} (a b : α × Field × DeserialiserInfo) : Prop := a.2.1.Alike b.2.1

theorem redo_readPlain {α : Type} {d : α} {h : Holder} {x x' : Slot h α} {ctx : MemberContext}
    {name : Bytes} {requestedType : UInt8} {read : Field → α → Get (α × Field)} (hfg : f.Alike g)
    (hread : ∀ {a f' q}, read f (x.getOrCreate d) m p = .ok ((a, f'), q) →
      ∃ a' g', read g (x'.getOrCreate d) m p = .ok ((a', g'), q) ∧ f'.Alike g') (k : Int) :
    Redo m (·.2.2) MembersAlike info (readPlain P check ctx name requestedType d read x f info) j
      (readPlain P check { ctx with previousSubFields := k } name requestedType d read x' g j) p := by
  unfold readPlain
  rw [hfg.intDataType, moveToFieldEndBufferPosition_alike hfg]
  refine redo_ite ?_ ?_
  · exact redo_same fun _ _ =>
      redo_handleUnlessIgnored.bind (fun _ => trivial) fun i j _ _ =>
        redo_pure (.refl i) (.refl j) hfg
  · refine redo_lift (T := fun a b => a.2.Alike b.2) (fun h => ?_) fun a b q hab =>
      redo_markSet.bind (fun _ => trivial) fun i j _ _ => redo_pure (.refl i) (.refl j) hab
    obtain ⟨a', g', hg', halike⟩ := hread h
    exact ⟨(a', g'), hg', halike⟩

theorem redo_checkTypeName (hfg : f.Alike g) (typeName : Bytes) :
    Redo m id (fun _ _ => True) info (checkTypeName check typeName info f) j
      (checkTypeName check typeName j g) p := by
  unfold checkTypeName
  rw [hfg.hierarchyDepth, hfg.fieldName]
  exact redo_ite redo_handleUnlessIgnored (redo_pure (.refl _) (.refl _) trivial)

theorem redo_checkBufferEnd {α : Type} {R : StructReader α}
    (hdep : f.hierarchyDepth = g.hierarchyDepth) :
    Redo m id (fun _ _ => True) info (checkBufferEnd check R f info) j
      (checkBufferEnd check R g j) p := by
  unfold checkBufferEnd
  rw [hdep]
  exact redo_position (redo_size
    (redo_ite redo_handleUnlessIgnored (redo_pure (.refl _) (.refl _) trivial)))

include hP

theorem Replaying.redo_getHeader (hfg : F f g) :
    Redo m (·.1) (fun a b => a.2.Alike b.2) info (P.getHeader check info f) j
      (P.getHeader check j g) p := by
  rintro ⟨_, _⟩ q h
  obtain ⟨hinfo, hagain⟩ := hP.getHeader hfg h
  obtain ⟨j', g', hg', halike, hj⟩ := hagain j
  exact ⟨hinfo, fun _ => ⟨(j', g'), hg', halike, hj⟩⟩

/-- The beginning of a struct. -/
theorem redo_startStruct {parent parent' : Field} (hname : parent.fieldName = parent'.fieldName)
    (hdep : parent.hierarchyDepth = parent'.hierarchyDepth) (typeName : Bytes) (n : Nat) :
    Redo m (·.1) (fun a b => a.2.Alike b.2) info (startStruct P check typeName n parent info) j
      (startStruct P check typeName n parent' j) p := by
  unfold startStruct
  rw [hname, hdep]
  refine redo_size (Redo.mono ?_ (extends_initSetFields check parent'.fieldName n info)
    (extends_initSetFields check parent'.fieldName n j))
  refine (hP.redo_getHeader (hP.of_alike (.refl _))).bind (fun a => .refl a.2) fun a b _ hab => ?_
  refine (redo_checkTypeName hab typeName).bind (fun _ => trivial) fun i j _ _ => ?_
  refine redo_lift (hP.getStart hab) fun f g _ hfg => ?_
  rw [hfg.dataStartPosition]
  exact redo_setPosition (redo_pure (.refl i) (.refl j) hfg)

/-- What the loop has done once it does again, from where it began. -/
def LoopReplays (P : SerialiserProtocol) (fuel : Nat) (m : Memory) (F : Field → Field → Prop)
    (L : Loop) : Prop :=
  ∀ {rounds s p w info q}, iterate (L.step P fuel) rounds s m p = .ok ((w, info), q) →
    Extends s.info info ∧ ∀ t, F s.field t.field → Extends info t.info → ∃ w' j,
      iterate (L.step P fuel) rounds t m p = .ok ((w', j), q) ∧ Extends t.info j

omit hP in
theorem LoopReplays.redo (h : LoopReplays P fuel m F L) {s t : LoopState L.members.Val}
    (hst : F s.field t.field) (rounds : Nat) :
    Redo m (·.2) (fun _ _ => True) s.info (iterate (L.step P fuel) rounds s) t.info
      (iterate (L.step P fuel) rounds t) p := by
  rintro ⟨w, _⟩ q hs
  refine ⟨(h hs).1, fun hext => ?_⟩
  obtain ⟨w', j, ht, hj⟩ := (h hs).2 t hst hext
  exact ⟨(w', j), ht, trivial, hj⟩

/-- The reader of a member: of the context only the counter is free. -/
theorem MemberKind.redo_read (k : MemberKind) (ctx : MemberContext)
    {x x' : k.Val} (hloop : ∀ L : Loop, k.inner? = some L.members → LoopReplays P fuel m F L)
    (hfg : f.Alike g) (i : Int) :
    Redo m (·.2.2) MembersAlike info (k.read P fuel check ctx x f info) j
      (k.read P fuel check { ctx with previousSubFields := i } x' g j) p := by
  cases k with
  | none => exact redo_pure (.refl info) (.refl j) hfg
  | leaf name holder ty => exact redo_readPlain hfg (hP.getLeaf _ hfg) i
  | structs name holder n typeName inner =>
    rw [MemberKind.read, MemberKind.read]
    refine redo_readPlain hfg (fun hread => ?_) i
    obtain ⟨_, hlist, hpair⟩ := map_ok_iff.mp hread
    cases hpair
    obtain ⟨as', hlist'⟩ := hP.getStructs (x'.getOrCreate _) hfg hlist
    exact ⟨as', g, map_of_ok hlist' _, hfg⟩
  | nested name holder typeName inner =>
    have hinner : LoopReplays P fuel m F ⟨typeName, inner, check, sanitizeFieldName name.bytes⟩ :=
      hloop _ rfl
    rw [MemberKind.read, MemberKind.read, readNested, readNested]
    rw [hfg.headerStart, readStruct_eq_start, readStruct_eq_start]
    refine redo_setPosition (Redo.bind (R := fun _ _ => True) (v := (·.2)) ?_ (fun _ => trivial)
      fun a b _ _ => ?_)
    · refine Redo.bind
        (redo_startStruct hP (by rfl) (congrArg (· + 1) hfg.hierarchyDepth) typeName _)
        (fun a => .refl a.2) fun a b _ hab => ?_
      rw [readFields_eq_iterate, readFields_eq_iterate]
      exact hinner.redo (t := ⟨_, b.2, b.1⟩) (hP.of_alike hab) fuel
    · exact redo_markSet.bind (fun _ => trivial) fun i j _ _ =>
        redo_pure (.refl i) (.refl j)
          ⟨rfl, hfg.dataStartPosition, hfg.dataEndPosition, rfl, rfl, hfg.hierarchyDepth⟩

omit hP

/-- What a round has reported, whether it goes on or stops. -/
def roundInfo {α : Type} : LoopState α ⊕ α × DeserialiserInfo → DeserialiserInfo
  | .inl s => s.info
  | .inr r => r.2

/-- Rounds that lead to the same. -/
def RoundsAlike {α : Type} (F : Field → Field → Prop) :
    LoopState α ⊕ α × DeserialiserInfo → LoopState α ⊕ α × DeserialiserInfo → Prop
  | .inl s, .inl t => F s.field t.field
  | .inr _, .inr _ => True
  | _, _ => False

variable (hP : Replaying P m F)
include hP

/-- What a round has done behind its header it does again. -/
theorem redo_follow (L : Loop)
    (hloop : ∀ L' : Loop, sizeOf L'.members < sizeOf L.members → LoopReplays P fuel m F L')
    {value value' : L.members.Val} {i i' : Int} (hfg : f.Alike g) :
    Redo m (·.info) (fun s t => s.field.Alike t.field) info (L.follow P fuel value i info f) j
      (L.follow P fuel value' i' j g) p := by
  unfold Loop.follow
  rw [hfg.fieldName]
  cases findMemberIndex L.members.names g.fieldName with
  | none =>
    exact (redo_skipUnknownField hP hfg _).bind (fun _ => trivial) fun i j _ _ =>
      redo_pure (.refl i) (.refl j) hfg
  | some index =>
    refine (MemberKind.redo_read hP _ ⟨L.parentName, index, i⟩
      (fun L' hL' => hloop L' (Members.sizeOf_inner _ hL')) hfg i').bind (fun a => .refl a.2.1)
      fun a b _ hab => ?_
    exact (redo_skipToDataEnd hab).bind (fun _ => trivial) fun i j _ _ =>
      redo_pure (.refl i) (.refl j) hab

/-- What a round has done once it does again. -/
theorem redo_step (L : Loop)
    (hloop : ∀ L' : Loop, sizeOf L'.members < sizeOf L.members → LoopReplays P fuel m F L')
    {s t : LoopState L.members.Val} (hst : F s.field t.field) :
    Redo m roundInfo (RoundsAlike F) s.info (L.step P fuel s) t.info (L.step P fuel t) p := by
  rw [Loop.step_eq, Loop.step_eq]
  refine redo_position (redo_size (redo_ite ?_ ?_))
  · refine (hP.redo_getHeader hst).bind (fun a => .refl a.2) fun a b _ hab => ?_
    rw [hab.dataStartPosition, hab.intDataType]
    refine redo_setPosition (redo_ite (redo_pure (.refl _) (.refl _) trivial) ?_)
    exact (redo_follow hP L hloop hab).map (fun _ => rfl) (fun _ => rfl) fun _ _ => hP.of_alike
  · exact (redo_checkBufferEnd (hP.depth hst)).map (fun _ => rfl) (fun _ => rfl) fun _ _ _ => trivial

/-- By induction on the members, and for each loop on its rounds. -/
theorem loopReplays (L : Loop) : LoopReplays P fuel m F L := by
  induction hn : sizeOf L.members using Nat.strong_induction_on generalizing L with
  | h n ih =>
    have hparts : ∀ L' : Loop, sizeOf L'.members < sizeOf L.members → LoopReplays P fuel m F L' :=
      fun L' hL' => ih _ (hn ▸ hL') L' rfl
    have halike : ∀ f, F f f := fun f => hP.of_alike (.refl f)
    have hredo : ∀ rounds {s t : LoopState L.members.Val} {p}, F s.field t.field →
        Redo m (·.2) (fun _ _ => True) s.info (iterate (L.step P fuel) rounds s) t.info
          (iterate (L.step P fuel) rounds t) p := by
      intro rounds
      induction rounds with
      | zero =>
        intro s t p _ a q h
        cases h
      | succ rounds ihrounds =>
        intro s t p hst
        rw [iterate, iterate]
        refine (redo_step hP L hparts hst).bind (fun o => ?_) fun o o' q hoo' => ?_
        · cases o with
          | inl s => exact halike s.field
          | inr r => exact trivial
        · cases o with
          | inl s =>
            cases o' with
            | inl t => exact ihrounds hoo'
            | inr b => exact hoo'.elim
          | inr a =>
            cases o' with
            | inl t => exact hoo'.elim
            | inr b => exact redo_pure (.refl a.2) (.refl b.2) trivial
    intro rounds s p w info q h
    refine ⟨(hredo rounds (halike s.field) _ _ h).1, fun t hst hext => ?_⟩
    obtain ⟨⟨w', j⟩, ht, -, hj⟩ := (hredo rounds hst _ _ h).2 hext
    exact ⟨w', j, ht, hj⟩

theorem next_replay (h : Next (L.step P fuel) m x y) :
    Extends x.1.info y.1.info ∧ ∀ t : LoopState L.members.Val, F x.1.field t.field →
      Extends y.1.info t.info →
      ∃ t', Next (L.step P fuel) m (t, x.2) (t', y.2) ∧ F y.1.field t'.field := by
  refine ⟨(redo_step hP L (fun L' _ => loopReplays hP L') (hP.of_alike (.refl _)) _ _ h).1,
    fun t ht hext => ?_⟩
  obtain ⟨o', hnext', halike, -⟩ :=
    (redo_step hP L (fun L' _ => loopReplays hP L') ht _ _ h).2 hext
  cases o' with
  | inl t' => exact ⟨t', hnext', halike⟩
  | inr r => exact halike.elim

theorem extends_reflTransGen
    (h : ReflTransGen (Next (L.step P fuel) m) x y) : Extends x.1.info y.1.info := by
  induction h with
  | refl => exact .refl _
  | tail _ hnext ih => exact ih.trans (next_replay hP hnext).1

/-- A loop that has come back replays its rounds for ever. -/
theorem return_forever (h : TransGen (Next (L.step P fuel) m) x y) (hpos : x.2 = y.2)
    (hfield : F x.1.field y.1.field) (rounds : Nat) :
    iterate (L.step P fuel) rounds x.1 m x.2 = .error .outOfFuel := by
  -- each state has a later one at the same position
  refine iterate_eq_outOfFuel (S := fun a => ∃ b, TransGen (Next (L.step P fuel) m) a b ∧
    a.2 = b.2 ∧ F a.1.field b.1.field) ?_ rounds ⟨y, h, hpos, hfield⟩
  rintro a ⟨⟨t, q⟩, hab, rfl, hab'⟩
  obtain ⟨a', haa', ha'b⟩ := TransGen.head'_iff.mp hab
  obtain ⟨t', hnext, hfield'⟩ := (next_replay hP haa').2 t hab' (extends_reflTransGen hP ha'b)
  exact ⟨a', haa', (t', a'.2), TransGen.tail' ha'b hnext, rfl, hfield'⟩

end Replaying

/-! ## Loops that stop the run -/

section Failing

variable {P : SerialiserProtocol} {fuel : Nat} {m : Memory} {calls : CallSites}
  {check : ProtocolCheck} {c : Config} {e : Halt Exception}

/-- Reading an array of structs stops with the error of an element. -/
def CallsFail (P : SerialiserProtocol) (m : Memory) (calls : CallSites) (e : Halt Exception) : Prop :=
  ∀ {α : Type} {n f} {d : α} {readOne old p q}, calls α readOne p q →
    readOne m q = .error e → P.getStructs n f d readOne old m p = .error e

variable (hc : iterate (c.1.step P fuel) fuel c.2.1 m c.2.2 = .error e)
include hc

theorem readStruct_error {typeName : Bytes} {ms : Members} {parent : Field} {value : ms.Val}
    {info : DeserialiserInfo} {p : Nat}
    (h : StructBegins P m check typeName ms parent value info p c) :
    readStruct P check (ms.reader P fuel check typeName) fuel parent value info m p = .error e := by
  obtain ⟨_, _, _, hstart, rfl⟩ := h
  rw [readStruct_eq_start]
  refine (bind_of_ok hstart _).trans ?_
  rw [readFields_eq_iterate]
  exact hc

theorem readRoot_error {typeName : Bytes} {ms : Members} {value : ms.Val} {p : Nat}
    (h : RootBegins P m check typeName ms value p c) :
    readRoot P check (ms.reader P fuel check typeName) fuel value m p = .error e := by
  obtain ⟨_, q, hinfo, hlenient, hbegins⟩ := h
  rw [readRoot, bind_of_ok hinfo, if_neg hlenient, size_bind]
  exact readStruct_error hc hbegins

variable (hcalls : CallsFail P m calls e)
include hcalls

theorem MemberKind.read_error {k : MemberKind} {x : k.Val} (ctx : MemberContext) {field : Field}
    {info : DeserialiserInfo} (h : k.Enters P fuel m calls check x field info c) :
    k.read P fuel check ctx x field info m field.dataStartPosition = .error e := by
  cases k with
  | none => exact h.elim
  | leaf name holder ty => exact h.elim
  | nested name holder typeName inner =>
    rw [MemberKind.read, readNested, setPosition_bind]
    exact bind_of_error (readStruct_error hc h) _
  | structs name holder n typeName inner =>
    obtain ⟨htype, q, hcall, hbegins⟩ := h
    rw [MemberKind.read, readPlain, if_neg (by tauto)]
    refine bind_of_error (map_of_error (hcalls hcall ?_) _) _
    exact map_of_error (readRoot_error hc hbegins) _

/-- A round stops with the error of a loop that it starts. -/
theorem step_error {L : Loop} {x : L.State}
    (h : Enters P fuel m calls ⟨L, x⟩ c) : L.step P fuel x.1 m x.2 = .error e := by
  obtain ⟨hp, info, field, q, _, hhdr, hend, hidx, henters⟩ := h
  have hfollow : L.follow P fuel x.1.value x.1.field.subfields info field m field.dataStartPosition =
      .error e := by
    rw [Loop.follow, hidx]
    exact bind_of_error (MemberKind.read_error hc hcalls _ henters) _
  rw [Loop.step_eq, position_bind, size_bind, if_pos hp,
    bind_of_ok hhdr, setPosition_bind, if_neg hend]
  exact map_of_error hfollow _

omit hc hcalls

/-- What leads to a loop that does not end does not end. -/
theorem Reached.outOfFuel (hcalls : CallsFail P m calls .outOfFuel) {c' : Config}
    (h : Reached P fuel m calls c c')
    (hc' : ∀ rounds, iterate (c'.1.step P fuel) rounds c'.2.1 m c'.2.2 = .error .outOfFuel)
    (rounds : Nat) : iterate (c.1.step P fuel) rounds c.2.1 m c.2.2 = .error .outOfFuel := by
  induction h generalizing rounds with
  | refl => exact hc' rounds
  | next _ hnext ih =>
    refine ih (fun rounds => ?_) rounds
    exact iterate_eq_outOfFuel_of_reach (.single hnext) hc' rounds
  | enter _ henter ih =>
    refine ih (fun rounds => ?_) rounds
    cases rounds with
    | zero => rfl
    | succ rounds =>
      rw [iterate]
      exact bind_of_error (step_error (hc' fuel) hcalls henter) _

end Failing

/-! ## When a deserialiser ends -/

/-- Reading `value` from the beginning of the buffer returns, throws or does
what has no defined effect, after finitely many rounds of its loops. -/
def Terminates (P : Nat → SerialiserProtocol) (check : ProtocolCheck) (T : StructTy)
    (value : T.members.Val) (m : Memory) : Prop :=
  ∃ n, ∀ fuel, n ≤ fuel → Ends (deserialise (P fuel) check fuel T value) m 0

/-- No loop comes back when `value` is read from the beginning of the
buffer. -/
def NoLoopReturns (fuel : Nat) (m : Memory) (calls : CallSites)
    (check : ProtocolCheck) (T : StructTy) (value : T.members.Val) : Prop :=
  ∀ c, RootBegins P m check T.typeName T.members value 0 c → NoReturn P fuel m calls c

/-- With more rounds than the buffer has bytes, reading ends exactly if no
loop comes back. -/
theorem ends_deserialise_iff {P : SerialiserProtocol} {fuel : Nat} {m : Memory} {calls : CallSites}
    {F : Field → Field → Prop} (hends : Ending P fuel m calls) (hreplay : Replaying P m F)
    (hcalls : CallsFail P m calls .outOfFuel) (hfuel : m.size < fuel) {check : ProtocolCheck} {T : StructTy}
    {value : T.members.Val}
    (hreturn : ∀ c, RootBegins P m check T.typeName T.members value 0 c → ∀ (L : Loop) (x y : L.State),
      Reached P fuel m calls c ⟨L, x⟩ → TransGen (Next (L.step P fuel) m) x y → x.2 = y.2 →
      F x.1.field y.1.field) :
    Ends (deserialise P check fuel T value) m 0 ↔ NoLoopReturns P fuel m calls check T value := by
  constructor
  · intro h c hc L x y hx hxy hpos
    have hforever := return_forever hreplay hxy hpos (hreturn c hc L x y hx hxy hpos)
    exact h (readRoot_error (hx.outOfFuel hcalls hforever fuel) hc)
  · intro h
    exact ends_readRoot hends fun c hc => ends_loop hends hfuel c (h c hc)

end OpenCmw.Io
