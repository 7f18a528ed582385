import OpenCmw.IoBuffer

/-!
# Serialising reflectable structs

The walk over a struct is the same for every protocol: `serialise` writes
a start marker, the members that are no null pointers, and an end marker;
`deserialise` reads field headers in a loop, finds the member of each by
its name, and dives into nested structs by reading their header again.
What differs is collected in `SerialiserProtocol`: the markers, how a
field header is written and read, and the plain types.

The loop of `detail::deserialise` runs until it meets an end marker or
the end of the buffer. Nothing bounds it for arbitrary bytes, so
`readFields` takes the number of rounds it may go and stops as `outOfFuel`
when they are used up. One round is described by `readFields_end` and
`readFields_member`, which is all that a protocol's proof needs of it.

Left out are annotated members (their unit, quantity, description and
modifier), static members and member functions, which no type here has.
-/

namespace OpenCmw.Io

open ByteReader
open Slot (holding)
open List Nat

/-! ## Field descriptions -/

/-- `static_cast<int16_t>(i)`. -/
def toInt16 (i : Int) : Int := i.bmod (2 ^ 16)

/-- `FieldDescriptionLong`. -/
structure Field where
  headerStart : Nat
  dataStartPosition : Nat
  dataEndPosition : Nat
  subfields : Int
  fieldName : Bytes
  intDataType : UInt8
  hierarchyDepth : UInt8
  deriving DecidableEq, Repr

inductive ProtocolCheck
  | ignore
  | lenient
  | always
  deriving DecidableEq, Repr

structure DeserialiserInfo where
  setFields : SortedMap Bytes (List Bool) := ∅
  additionalFields : List (Bytes × UInt8) := []
  exceptions : List ProtocolException := []
  deriving DecidableEq

/-- `detail::ROOT_NAME`. -/
def rootName : Bytes := str "root"

/-- `detail::newFieldHeader` for a buffer of this size. -/
def newFieldHeader (size : Nat) (fieldName : Bytes) (hierarchyDepth : UInt8) (typeId : UInt8)
    (subfields : Int) : Field where
  headerStart := size
  dataStartPosition := size
  dataEndPosition := size
  subfields := subfields
  fieldName := fieldName
  intDataType := typeId
  hierarchyDepth := hierarchyDepth

theorem subfields_newFieldHeader (size : Nat) (fieldName : Bytes) (hierarchyDepth typeId : UInt8)
    (i : Int) : (newFieldHeader size fieldName hierarchyDepth typeId i).subfields = i := rfl

/-! ## Protocols -/

abbrev Put := Except (Halt Exception) Bytes

/-- What a protocol provides: `FieldHeaderWriter`, `FieldHeaderReader`,
`IoSerialiser` for the markers and the plain types, and the functions that
are specialised for it. A writer gets the bytes written so far. -/
structure SerialiserProtocol where
  startId : UInt8
  endId : UInt8
  otherId : UInt8
  structId : UInt8
  typeId : ValueTy → UInt8
  structsId : UInt8
  headerInfo : Bytes
  putStart : Bytes → Field → Except (Halt Exception) (Bytes × Nat)
  putEnd : Bytes → Field → Put
  putLeaf : Bytes → Field → (t : ValueTy) → t.Val → Put
  putStructs : Bytes → Field → List (Bytes → Put) → Put
  updateSize : Bytes → Nat → Nat → Bytes
  checkHeaderInfo : ProtocolCheck → DeserialiserInfo → Get DeserialiserInfo
  getHeader : ProtocolCheck → DeserialiserInfo → Field → Get (DeserialiserInfo × Field)
  getStart : Field → Get Field
  getLeaf : (t : ValueTy) → Field → t.Val → Get (t.Val × Field)
  getStructs : {α : Type} → (n : Option Nat) → Field → α → Get α → Seq n α → Get (Seq n α)
  skipOther : Option (Field → Get Unit)

/-! ## Writing -/

variable (P : SerialiserProtocol) (field : Field)

/-- A start marker, what `body` writes for the members, an end marker. -/
def writeStruct (body : Bytes → Put) (buf : Bytes) : Put := do
  let (buf, posSizePositionStart) ← P.putStart buf field
  let posStartDataStart := buf.length
  let buf ← body buf
  let buf ← P.putEnd buf field
  return P.updateSize buf posSizePositionStart posStartDataStart

/-- `serialise` of an object whose members `body` writes. -/
def writeRoot (typeName : Bytes) (subfields : Nat)
    (body : UInt8 → Bytes → Put) (buf : Bytes) : Put :=
  let buf := buf ++ P.headerInfo
  let field := newFieldHeader buf.length (sanitizeFieldName typeName) 0 P.structId
    (toInt16 subfields)
  writeStruct P field (body field.hierarchyDepth) buf

namespace Members

/-- `detail::serialise`: the members in order, null pointers skipped. The
hierarchy depth is that of the struct itself. -/
def serialise (P : SerialiserProtocol) : (ms : Members) → ms.Val → UInt8 → Bytes → Put
  | nil, _, _, buf => .ok buf
  | leaf name _ ty rest, (x, xs), depth, buf =>
    match x.get? with
    | none => rest.serialise P xs depth buf
    | some a => do
      let field := newFieldHeader buf.length (sanitizeFieldName name.bytes) (depth + 1)
        (P.typeId ty) 0
      let buf ← P.putLeaf buf field ty a
      rest.serialise P xs depth buf
  | nested name _ _ inner rest, (x, xs), depth, buf =>
    match x.get? with
    | none => rest.serialise P xs depth buf
    | some a => do
      let field := newFieldHeader buf.length (sanitizeFieldName name.bytes) (depth + 1)
        P.structId (toInt16 (inner.written a))
      let buf ← writeStruct P field (inner.serialise P a (depth + 1)) buf
      rest.serialise P xs depth buf
  | structs name _ _ typeName inner rest, (x, xs), depth, buf =>
    match x.get? with
    | none => rest.serialise P xs depth buf
    | some as => do
      let field := newFieldHeader buf.length (sanitizeFieldName name.bytes) (depth + 1)
        P.structsId 0
      let buf ← P.putStructs buf field (as.toList.map fun a =>
        writeRoot P typeName (inner.written a) (inner.serialise P a))
      rest.serialise P xs depth buf

end Members

/-- `serialise<protocol>(buffer, value)` into an empty buffer. -/
def serialise (P : SerialiserProtocol) (T : StructTy) (v : T.members.Val) : Put :=
  writeRoot P T.typeName (T.members.written v) (T.members.serialise P v) []

/-! ## Reading -/

variable (check : ProtocolCheck)

def handleDeserialisationError (info : DeserialiserInfo)
    (e : ProtocolException) : Get DeserialiserInfo :=
  match check with
  | .always => throwProtocol e
  | _ => pure { info with exceptions := info.exceptions ++ [e] }

/-- The same behind a test for `ProtocolCheck::IGNORE`. -/
def handleUnlessIgnored (info : DeserialiserInfo) (e : ProtocolException) : Get DeserialiserInfo :=
  if check = .ignore then pure info else handleDeserialisationError check info e

def moveToFieldEndBufferPosition : Get Unit :=
  if field.dataEndPosition ≠ sizeMax then setPosition field.dataEndPosition
  else pure ()

/-- The bit field of the struct that is about to be read. -/
def initSetFields (name : Bytes) (size : Nat) (info : DeserialiserInfo) : DeserialiserInfo :=
  if check = .ignore then info
  else
    match info.setFields.find? name with
    | some bits => { info with setFields := info.setFields.insert name (bits.map fun _ => false) }
    | none => { info with setFields := info.setFields.insert name (replicate size false) }

/-- `info.setFields[name][index] = true`. An index outside the bit field
has no defined effect. -/
def markSet (name : Bytes) (index : Nat) (info : DeserialiserInfo) : Get DeserialiserInfo :=
  if check = .ignore then pure info
  else
    match info.setFields.find? name with
    | some bits =>
      if index < bits.length then
        pure { info with setFields := info.setFields.insert name (bits.set index true) }
      else fail .undefined
    | none => fail .undefined

/-- What is known about the field being read: the struct it belongs to,
the index of its member, and the counter before its header was read. -/
structure MemberContext where
  parentName : Bytes
  fieldIndex : Nat
  previousSubFields : Int

/-- A struct as the reading loop sees it. -/
structure StructReader (α : Type) where
  typeName : Bytes
  names : List Bytes
  readMember : MemberContext → Nat → α → Field → DeserialiserInfo →
    Get (α × Field × DeserialiserInfo)

section Loop

variable (P : SerialiserProtocol) (check : ProtocolCheck) {α : Type} (R : StructReader α)

/-- A field that is no member is reported and skipped. -/
def skipUnknownField (parentName : Bytes) (field : Field) (info : DeserialiserInfo) :
    Get DeserialiserInfo := do
  let position ← position
  let size ← size
  let info ← handleUnlessIgnored check info
    (.missingField field.intDataType parentName field.fieldName position size)
  let name := parentName ++ str "::" ++ field.fieldName
  let info := if check = .ignore then info else
    { info with additionalFields := info.additionalFields ++ [(name, field.intDataType)] }
  if field.dataEndPosition ≠ sizeMax then
    moveToFieldEndBufferPosition field
  else
    match P.skipOther with
    | none => pure ()
    | some skip => do
      if field.intDataType = P.startId then
        setPosition (toSize ((field.dataStartPosition : Int) - 1))
      skip field
  return info

/-- A field header that gives the end of its data decides where the next
header is read. -/
def skipToDataEnd (field : Field) (info : DeserialiserInfo) : Get DeserialiserInfo := do
  let position ← position
  if field.dataEndPosition ≠ sizeMax ∧ field.dataEndPosition ≠ position then
    let info ← handleUnlessIgnored check info
      (.notConsumed field.fieldName field.dataEndPosition position)
    moveToFieldEndBufferPosition field
    return info
  else
    return info

/-- Behind the last field of the buffer. -/
def checkBufferEnd (field : Field) (info : DeserialiserInfo) : Get DeserialiserInfo := do
  let position ← position
  let size ← size
  if field.hierarchyDepth = 0 ∧ position ≠ size then
    handleUnlessIgnored check info
      (.bufferLeft R.typeName field.hierarchyDepth position size)
  else
    return info

/-- The loop of `detail::deserialise` over the fields of one struct. -/
def readFields (parentName : Bytes) : Nat → α → Field → DeserialiserInfo →
    Get (α × DeserialiserInfo)
  | 0, _, _, _ => fail .outOfFuel
  | fuel + 1, value, field, info => do
    let position ← position
    let size ← size
    if position < size then
      let previousSubFields := field.subfields
      let (info, field) ← P.getHeader check info field
      setPosition field.dataStartPosition
      if field.intDataType = P.endId then
        return (value, info)
      else
        match findMemberIndex R.names field.fieldName with
        | none => do
          let info ← skipUnknownField P check parentName field info
          readFields parentName fuel value field info
        | some index => do
          let (value, field, info) ←
            R.readMember ⟨parentName, index, previousSubFields⟩ index value field info
          let info ← skipToDataEnd check field info
          readFields parentName fuel value field info
    else
      let info ← checkBufferEnd check R field info
      return (value, info)

/-- `detail::deserialise`: the header of the struct itself, then its
fields. -/
def readStruct (fuel : Nat) (parent : Field) (value : α) (info : DeserialiserInfo) :
    Get (α × DeserialiserInfo) := do
  let info := initSetFields check parent.fieldName R.names.length info
  let size ← size
  let field := newFieldHeader size [] parent.hierarchyDepth P.structId (-1)
  let (info, field) ← P.getHeader check info field
  let info ←
    if field.hierarchyDepth = 0 ∧ field.fieldName ≠ R.typeName ∧ field.fieldName ≠ [] then
      handleUnlessIgnored check info (.unexpectedType R.typeName field.fieldName)
    else pure info
  let field ← P.getStart field
  setPosition field.dataStartPosition
  readFields P check R parent.fieldName fuel value field info

/-- `deserialise<protocol, check>(buffer, value)`. -/
def readRoot (fuel : Nat) (value : α) : Get (α × DeserialiserInfo) := do
  let info ← P.checkHeaderInfo check {}
  if check = .lenient ∧ info.exceptions ≠ [] then
    return (value, info)
  else
    let size ← size
    readStruct P check R fuel (newFieldHeader size rootName 0 P.structId (-1)) value info

/-- A member that is no struct: the type on the wire has to be the one
asked for, unless the protocol does not know types. -/
def readPlain (ctx : MemberContext) (name : Bytes) (requestedType : UInt8) (d : α)
    (read : Field → α → Get (α × Field)) {h : Holder} (x : Slot h α) (field : Field)
    (info : DeserialiserInfo) : Get (Slot h α × Field × DeserialiserInfo) := do
  if requestedType ≠ field.intDataType ∧ requestedType ≠ P.otherId then
    moveToFieldEndBufferPosition field
    let info ← handleUnlessIgnored check info
      (.mismatchedType name requestedType field.intDataType)
    return (x, field, info)
  else
    let (a, field) ← read field (x.getOrCreate d)
    let info ← markSet check ctx.parentName ctx.fieldIndex info
    return (holding h a, field, info)

/-- A nested struct: its header is read again by its own loop. -/
def readNested (fuel : Nat) (ctx : MemberContext) (name : Bytes) (d : α) {h : Holder}
    (x : Slot h α) (field : Field) (info : DeserialiserInfo) :
    Get (Slot h α × Field × DeserialiserInfo) := do
  let field := { field with intDataType := P.startId, fieldName := name }
  setPosition field.headerStart
  let (a, info) ← readStruct P check R fuel
    { field with hierarchyDepth := field.hierarchyDepth + 1 } (x.getOrCreate d) info
  let info ← markSet check ctx.parentName ctx.fieldIndex info
  return (holding h a, { field with subfields := toInt16 (ctx.previousSubFields - 1) }, info)

end Loop

namespace Members

/-- The member at an index of the list, counted from its head. -/
def readMember (P : SerialiserProtocol) (fuel : Nat) : (ms : Members) → ProtocolCheck →
    MemberContext → Nat → ms.Val → Field → DeserialiserInfo →
    Get (ms.Val × Field × DeserialiserInfo)
  | nil, _, _, _, v, field, info => pure (v, field, info)
  | leaf name _ ty rest, check, ctx, i, (x, xs), field, info =>
    match i with
    | 0 => (fun r => ((r.1, xs), r.2)) <$>
        readPlain P check ctx name.bytes (P.typeId ty) ty.default (P.getLeaf ty) x field info
    | i + 1 => (fun r => ((x, r.1), r.2)) <$>
        rest.readMember P fuel check ctx i xs field info
  | nested name _ typeName inner rest, check, ctx, i, (x, xs), field, info =>
    match i with
    | 0 => (fun r => ((r.1, xs), r.2)) <$>
        readNested P check ⟨typeName, inner.names, inner.readMember P fuel check⟩ fuel ctx
          (sanitizeFieldName name.bytes) inner.default x field info
    | i + 1 => (fun r => ((x, r.1), r.2)) <$>
        rest.readMember P fuel check ctx i xs field info
  | structs name _ n typeName inner rest, check, ctx, i, (x, xs), field, info =>
    match i with
    | 0 => (fun r => ((r.1, xs), r.2)) <$>
        readPlain P check ctx name.bytes P.structsId (Seq.default inner.default n)
          (fun field old => (fun as => (as, field)) <$> P.getStructs n field inner.default
              ((·.1) <$> readRoot P .lenient
                ⟨typeName, inner.names, inner.readMember P fuel .lenient⟩ fuel inner.default) old)
          x field info
    | i + 1 => (fun r => ((x, r.1), r.2)) <$>
        rest.readMember P fuel check ctx i xs field info

def reader (P : SerialiserProtocol) (fuel : Nat) (check : ProtocolCheck) (typeName : Bytes)
    (ms : Members) : StructReader ms.Val :=
  ⟨typeName, ms.names, ms.readMember P fuel check⟩

end Members

/-- `deserialise<protocol, check>` of a struct type. -/
def deserialise (fuel : Nat) (T : StructTy)
    (value : T.members.Val) : Get (T.members.Val × DeserialiserInfo) :=
  readRoot P check (T.members.reader P fuel check T.typeName) fuel value

/-- The value `v` is written, and reading the text into an object that
holds `init` gives `v` again, reports nothing and stops at the end of the
text, whatever lies behind the buffer. A protocol's own loops get as many
rounds as the loop over the fields. -/
def RoundTrips (P : Nat → SerialiserProtocol) (check : ProtocolCheck) (T : StructTy)
    (v init : T.members.Val) : Prop :=
  ∃ text, ∀ fuel, serialise (P fuel) T v = .ok text ∧ ∀ beyond, text.length < fuel →
    ∃ info, info.exceptions = [] ∧
      deserialise (P fuel) check fuel T init ⟨text, beyond⟩ 0 = .ok ((v, info), text.length)

/-- What comes back when a value is written and all of the text is read. -/
def readBack (P : Nat → SerialiserProtocol) (check : ProtocolCheck) (T : StructTy)
    (v init : T.members.Val) : Option T.members.Val := do
  let text ← (serialise (P 0) T v).toOption
  let fuel := text.length + 1
  let ((w, _), position) ←
    (deserialise (P fuel) check fuel T init ⟨text, fun _ => none⟩ 0).toOption
  if position = text.length then some w else none

/-- The value `v` is written, and reading the text into an object that
holds `init` gives `v` again, wherever the reader stops. -/
def Recovers (P : Nat → SerialiserProtocol) (check : ProtocolCheck) (T : StructTy)
    (v init : T.members.Val) : Prop :=
  ∃ text, ∀ fuel, serialise (P fuel) T v = .ok text ∧ ∀ beyond, text.length < fuel →
    ∃ info q, deserialise (P fuel) check fuel T init ⟨text, beyond⟩ 0 = .ok ((v, info), q)

theorem RoundTrips.readBack_eq {P : Nat → SerialiserProtocol} {check : ProtocolCheck}
    {T : StructTy} {v init : T.members.Val} (h : RoundTrips P check T v init) :
    readBack P check T v init = some v := by
  obtain ⟨text, hall⟩ := h
  obtain ⟨_, -, hread⟩ := (hall (text.length + 1)).2 (fun _ => none) (lt_succ_self _)
  simp only [readBack, (hall 0).1, Except.toOption, Option.bind_eq_bind, Option.bind_some, hread,
    if_true]

/-! ## One round of the loop -/

/-- What the loop over the fields of a struct goes on with. -/
structure LoopState (α : Type) where
  value : α
  field : Field
  info : DeserialiserInfo
  deriving DecidableEq

/-- One round of `readFields`. -/
def readRound {α : Type} (R : StructReader α)
    (parentName : Bytes) (s : LoopState α) : Get (LoopState α ⊕ α × DeserialiserInfo) := do
  let position ← position
  let size ← size
  if position < size then
    let (info, field) ← P.getHeader check s.info s.field
    setPosition field.dataStartPosition
    if field.intDataType = P.endId then
      return .inr (s.value, info)
    else
      match findMemberIndex R.names field.fieldName with
      | none => do
        let info ← skipUnknownField P check parentName field info
        return .inl ⟨s.value, field, info⟩
      | some index => do
        let (value, field, info) ←
          R.readMember ⟨parentName, index, s.field.subfields⟩ index s.value field info
        let info ← skipToDataEnd check field info
        return .inl ⟨value, field, info⟩
  else
    let info ← checkBufferEnd check R s.field s.info
    return .inr (s.value, info)

theorem readFields_eq_iterate (P : SerialiserProtocol) (check : ProtocolCheck) {α : Type}
    (R : StructReader α) (parentName : Bytes) : ∀ (fuel : Nat) (value : α) (field : Field)
      (info : DeserialiserInfo), readFields P check R parentName fuel value field info =
        ByteReader.iterate (readRound P check R parentName) fuel ⟨value, field, info⟩
  | 0, _, _, _ => rfl
  | fuel + 1, value, field, info => by
    have ih := readFields_eq_iterate P check R parentName fuel
    rw [readFields, ByteReader.iterate, readRound]
    simp only [bind_assoc]
    refine bind_congr fun position => bind_congr fun size => ?_
    by_cases hsize : position < size
    · rw [if_pos hsize, if_pos hsize]
      simp only [bind_assoc]
      refine bind_congr fun header => bind_congr fun _ => ?_
      by_cases hend : header.2.intDataType = P.endId
      · rw [if_pos hend, if_pos hend, pure_bind]
      · rw [if_neg hend, if_neg hend]
        cases findMemberIndex R.names header.2.fieldName with
        | none =>
          simp only [bind_assoc, pure_bind, ih]
        | some index =>
          simp only [bind_assoc, pure_bind, ih]
    · rw [if_neg hsize, if_neg hsize]
      simp only [bind_assoc, pure_bind]

section Inversion

variable {P : SerialiserProtocol} {check : ProtocolCheck} {α : Type} {R : StructReader α}
  {parentName : Bytes} {m : Memory} {p p' : Nat} {s s' : LoopState α}

/-- A round that goes on has read a header in the buffer, and changes the
value by the reader of a member only; one that stops gives the value as it
is. -/
theorem readRound_cases {o : LoopState α ⊕ α × DeserialiserInfo}
    (h : readRound P check R parentName s m p = .ok (o, p')) :
    (∃ info, o = .inr (s.value, info)) ∨ p < m.size ∧ ∃ s', o = .inl s' ∧ (s'.value = s.value ∨
      ∃ ctx index field info q info' q', R.readMember ctx index s.value field info m q =
        .ok ((s'.value, s'.field, info'), q')) := by
  rw [readRound, position_bind, size_bind] at h
  by_cases hsize : p < m.size
  · rw [if_pos hsize] at h
    obtain ⟨⟨info₁, field₁⟩, q, -, h⟩ := bind_ok_iff.mp h
    dsimp only at h
    rw [setPosition_bind] at h
    by_cases hend : field₁.intDataType = P.endId
    · rw [if_pos hend] at h
      cases h
      exact .inl ⟨info₁, rfl⟩
    · rw [if_neg hend] at h
      refine .inr ⟨hsize, ?_⟩
      cases hidx : findMemberIndex R.names field₁.fieldName with
      | none =>
        rw [hidx] at h
        obtain ⟨info₂, p₂, -, h⟩ := bind_ok_iff.mp h
        cases h
        exact ⟨_, rfl, .inl rfl⟩
      | some index =>
        rw [hidx] at h
        obtain ⟨⟨_, _, info₂⟩, p₂, hread, h⟩ := bind_ok_iff.mp h
        obtain ⟨_, _, -, h⟩ := bind_ok_iff.mp h
        cases h
        exact ⟨_, rfl, .inr ⟨_, _, _, _, _, _, _, hread⟩⟩
  · rw [if_neg hsize] at h
    obtain ⟨info, q, -, h⟩ := bind_ok_iff.mp h
    cases h
    exact .inl ⟨info, rfl⟩

variable {a : α} {info : DeserialiserInfo} {Q : α → Prop} {fuel : Nat} {b : α} {q : Nat}
  (hmember : ∀ ctx index a field info p b field' info' p', Q a →
    R.readMember ctx index a field info m p = .ok ((b, field', info'), p') → Q b)
include hmember

/-- What the reader of every member keeps, the loop keeps. -/
theorem readFields_invariant {field : Field} {info' : DeserialiserInfo} (ha : Q a)
    (h : readFields P check R parentName fuel a field info m p = .ok ((b, info'), q)) : Q b := by
  rw [readFields_eq_iterate] at h
  refine iterate_invariant (I := fun s => Q s.value) (J := fun r => Q r.1) ?_ ?_ fuel ha h
  · intro s p s' p' hs hnext
    obtain ⟨_, ho⟩ | ⟨-, s'', ho, hval | ⟨_, _, _, _, _, _, _, hread⟩⟩ := readRound_cases hnext
    · cases ho
    · cases ho
      rw [hval]
      exact hs
    · cases ho
      exact hmember _ _ _ _ _ _ _ _ _ _ hs hread
  · intro s p r q hs hstop
    obtain ⟨_, ho⟩ | ⟨-, s'', ho, -⟩ := readRound_cases hstop
    · cases ho
      exact hs
    · cases ho

theorem readStruct_invariant {parent : Field} {info' : DeserialiserInfo} (ha : Q a)
    (h : readStruct P check R fuel parent a info m p = .ok ((b, info'), q)) : Q b := by
  rw [readStruct, size_bind] at h
  obtain ⟨⟨_, _⟩, _, -, h⟩ := bind_ok_iff.mp h
  dsimp only at h
  split_ifs at h with hname
  all_goals
    obtain ⟨_, _, -, h⟩ := bind_ok_iff.mp h
    obtain ⟨_, _, -, h⟩ := bind_ok_iff.mp h
    rw [setPosition_bind] at h
    exact readFields_invariant hmember ha h

theorem readRoot_invariant (ha : Q a)
    (h : readRoot P check R fuel a m p = .ok ((b, info), q)) : Q b := by
  rw [readRoot] at h
  obtain ⟨_, _, -, h⟩ := bind_ok_iff.mp h
  split_ifs at h with hlenient
  · obtain ⟨rfl, -⟩ := Prod.mk.inj (pure_eq_ok.mp h).1
    exact ha
  · rw [size_bind] at h
    exact readStruct_invariant hmember ha h

end Inversion

section Round

variable {P : SerialiserProtocol} {check : ProtocolCheck} {α : Type} {R : StructReader α}
  {parentName : Bytes} {fuel : Nat} {value value' : α} {field field₁ field₂ : Field}
  {info info₁ info₂ : DeserialiserInfo} {m : Memory} {p q p' : Nat}

/-- An end marker ends the loop behind it. -/
theorem readFields_end (hp : p < m.size)
    (hhdr : P.getHeader check info field m p = .ok ((info₁, field₁), q))
    (hend : field₁.intDataType = P.endId) :
    readFields P check R parentName (fuel + 1) value field info m p =
      .ok ((value, info₁), field₁.dataStartPosition) := by
  rw [readFields, position_bind, size_bind, if_pos hp, bind_of_ok hhdr]
  show (setPosition field₁.dataStartPosition >>= _) m q = _
  rw [setPosition_bind, if_pos hend]
  rfl

/-- A field whose reader stops at the end of its data is one round. -/
theorem readFields_member {index : Nat} (hp : p < m.size)
    (hhdr : P.getHeader check info field m p = .ok ((info₁, field₁), q))
    (hend : field₁.intDataType ≠ P.endId)
    (hidx : findMemberIndex R.names field₁.fieldName = some index)
    (hread : R.readMember ⟨parentName, index, field.subfields⟩ index value field₁ info₁ m
      field₁.dataStartPosition = .ok ((value', field₂, info₂), p'))
    (hdata : field₂.dataEndPosition = sizeMax ∨ field₂.dataEndPosition = p') :
    readFields P check R parentName (fuel + 1) value field info m p =
      readFields P check R parentName fuel value' field₂ info₂ m p' := by
  have hskip : skipToDataEnd check field₂ info₂ m p' = .ok (info₂, p') := by
    rw [skipToDataEnd, position_bind, if_neg]
    · rfl
    · rintro ⟨hmax, hpos⟩
      rcases hdata with h | h
      · exact hmax h
      · exact hpos h
  rw [readFields, position_bind, size_bind, if_pos hp, bind_of_ok hhdr]
  show (setPosition field₁.dataStartPosition >>= _) m q = _
  rw [setPosition_bind, if_neg hend]
  simp only [hidx]
  rw [bind_of_ok hread]
  rw [bind_of_ok hskip]

/-- A field whose reader throws ends the loop. -/
theorem readFields_member_error {index : Nat} {e : Halt Exception} (hp : p < m.size)
    (hhdr : P.getHeader check info field m p = .ok ((info₁, field₁), q))
    (hend : field₁.intDataType ≠ P.endId)
    (hidx : findMemberIndex R.names field₁.fieldName = some index)
    (hread : R.readMember ⟨parentName, index, field.subfields⟩ index value field₁ info₁ m
      field₁.dataStartPosition = .error e) :
    readFields P check R parentName (fuel + 1) value field info m p = .error e := by
  rw [readFields, position_bind, size_bind, if_pos hp, bind_of_ok hhdr]
  show (setPosition field₁.dataStartPosition >>= _) m q = _
  rw [setPosition_bind, if_neg hend]
  simp only [hidx]
  rw [bind_of_error hread]

/-- A struct whose header is the expected one goes on to its fields. -/
theorem readStruct_eq {parent : Field} {q' : Nat}
    (hhdr : P.getHeader check (initSetFields check parent.fieldName R.names.length info)
      (newFieldHeader m.size [] parent.hierarchyDepth P.structId (-1)) m p =
        .ok ((info₁, field₁), q))
    (hname : field₁.hierarchyDepth = 0 → field₁.fieldName = R.typeName ∨ field₁.fieldName = [])
    (hstart : P.getStart field₁ m q = .ok (field₂, q')) :
    readStruct P check R fuel parent value info m p =
      readFields P check R parent.fieldName fuel value field₂ info₁ m field₂.dataStartPosition := by
  rw [readStruct, size_bind]
  dsimp only
  rw [bind_of_ok hhdr]
  rw [if_neg (by rintro ⟨hdep, hne, hnil⟩; exact (hname hdep).elim hne hnil), pure_bind,
    bind_of_ok hstart, setPosition_bind]

/-- A message whose header is accepted goes on to its struct. -/
theorem readRoot_eq (hhdr : P.checkHeaderInfo check {} m p = .ok (info, q))
    (hinfo : info.exceptions = []) : readRoot P check R fuel value m p =
      readStruct P check R fuel (newFieldHeader m.size rootName 0 P.structId (-1)) value info m q := by
  rw [readRoot, bind_of_ok hhdr, if_neg (fun h => h.2 hinfo), size_bind]

end Round

/-! ## Bit fields -/

/-- The bit field of each name is as long as `size` says, and nothing has
been reported. -/
structure Clean (size : Bytes → Nat) (info : DeserialiserInfo) : Prop where
  exceptions : info.exceptions = []
  length_bits : ∀ {name bits}, info.setFields.find? name = some bits → bits.length = size name

theorem clean_empty (size : Bytes → Nat) : Clean size {} where
  exceptions := rfl
  length_bits h := by cases h

/-- The struct read under this name has its bit field, if there are any. -/
def Tracked (name : Bytes) (info : DeserialiserInfo) : Prop :=
  check ≠ .ignore → ∃ bits, info.setFields.find? name = some bits

/-- No bit field gets lost. -/
def KeepsBitFields (info info' : DeserialiserInfo) : Prop :=
  ∀ name bits, info.setFields.find? name = some bits →
    ∃ bits', info'.setFields.find? name = some bits'

section BitFields

variable {check : ProtocolCheck} {size : Bytes → Nat} {name : Bytes} {n index : Nat}
  {info info' info'' : DeserialiserInfo} {bits : List Bool}

theorem KeepsBitFields.refl (info : DeserialiserInfo) : KeepsBitFields info info :=
  fun _ bits h => ⟨bits, h⟩

theorem KeepsBitFields.trans (h : KeepsBitFields info info') (h' : KeepsBitFields info' info'') :
    KeepsBitFields info info'' := by
  intro name bits hfind
  obtain ⟨bits', hfind'⟩ := h name bits hfind
  exact h' name bits' hfind'

theorem Tracked.of_keeps (h : Tracked check name info) (hkeeps : KeepsBitFields info info') :
    Tracked check name info' := by
  intro hcheck
  obtain ⟨bits, hfind⟩ := h hcheck
  exact hkeeps name bits hfind

theorem find?_insert (m : SortedMap Bytes (List Bool)) (name other : Bytes) (bits : List Bool) :
    (m.insert name bits).find? other = if other = name then some bits else m.find? other := by
  by_cases h : other = name
  · rw [if_pos h, h, SortedMap.find?_insert_self]
  · rw [if_neg h, SortedMap.find?_insert_of_ne _ _ h]

/-- Storing a bit field of the right length. -/
theorem Clean.insert (h : Clean size info) (hbits : bits.length = size name) :
    Clean size { info with setFields := info.setFields.insert name bits } where
  exceptions := h.exceptions
  length_bits := by
    intro other bits' hfind
    rw [find?_insert] at hfind
    by_cases hother : other = name
    · rw [if_pos hother] at hfind
      rw [hother, ← Option.some.inj hfind, hbits]
    · rw [if_neg hother] at hfind
      exact h.length_bits hfind

theorem keepsBitFields_insert (info : DeserialiserInfo) (name : Bytes) (bits : List Bool) :
    KeepsBitFields info { info with setFields := info.setFields.insert name bits } := by
  intro other bits' hfind
  by_cases hother : other = name
  · exact ⟨bits, by rw [find?_insert, if_pos hother]⟩
  · exact ⟨bits', by rw [find?_insert, if_neg hother, hfind]⟩

/-- What a struct does to the bit fields before its members are read. -/
theorem initSetFields_spec (check : ProtocolCheck) (name : Bytes) (n : Nat) (h : Clean size info)
    (hn : check ≠ .ignore → n = size name) : Clean size (initSetFields check name n info) ∧
      Tracked check name (initSetFields check name n info) ∧
      KeepsBitFields info (initSetFields check name n info) := by
  by_cases hcheck : check = .ignore
  · rw [initSetFields, if_pos hcheck]
    exact ⟨h, fun hne => absurd hcheck hne, KeepsBitFields.refl info⟩
  · rw [initSetFields, if_neg hcheck]
    cases hfind : info.setFields.find? name with
    | none =>
      exact ⟨h.insert (by rw [length_replicate, hn hcheck]),
        fun _ => ⟨_, SortedMap.find?_insert_self _ _ _⟩, keepsBitFields_insert _ _ _⟩
    | some bits =>
      exact ⟨h.insert (by rw [length_map, h.length_bits hfind]),
        fun _ => ⟨_, SortedMap.find?_insert_self _ _ _⟩, keepsBitFields_insert _ _ _⟩

/-- A member's bit is set without reaching outside the bit field. -/
theorem markSet_spec (h : Clean size info) (htr : Tracked check name info)
    (hidx : check ≠ .ignore → index < size name) (m : Memory) (p : Nat) :
    ∃ info', markSet check name index info m p = .ok (info', p) ∧ Clean size info' ∧
      KeepsBitFields info info' := by
  by_cases hcheck : check = .ignore
  · rw [markSet, if_pos hcheck]
    exact ⟨info, rfl, h, KeepsBitFields.refl info⟩
  · obtain ⟨bits, hfind⟩ := htr hcheck
    have hlen := h.length_bits hfind
    refine ⟨{ info with setFields := info.setFields.insert name (bits.set index true) }, ?_,
      h.insert (by rw [length_set, hlen]), keepsBitFields_insert _ _ _⟩
    rw [markSet, if_neg hcheck, hfind]
    dsimp only
    rw [if_pos (hlen ▸ hidx hcheck)]
    rfl

end BitFields

/-! ## Members -/

/-- The description of a nested struct that its own loop starts from. -/
def Field.enter (startId : UInt8) (name : Bytes) : Field :=
  { field with
    intDataType := startId
    fieldName := name
    hierarchyDepth := field.hierarchyDepth + 1 }

/-- The next depth, as long as it does not wrap around. -/
theorem depth_succ (depth : UInt8) (h : depth.toNat + 1 < 256) :
    depth + 1 ≠ 0 ∧ (depth + 1).toNat = depth.toNat + 1 := by
  have hnext : (depth + 1).toNat = depth.toNat + 1 := by
    rw [UInt8.toNat_add]
    exact mod_eq_of_lt h
  refine ⟨?_, hnext⟩
  intro hzero
  rw [hzero] at hnext
  cases hnext

/-- A nested struct is read one level further down. -/
theorem Field.enter_depth (field : Field) {depth : UInt8} (startId : UInt8) (name : Bytes)
    (hfield : field.hierarchyDepth = depth) (h : depth.toNat + 1 < 256) :
    (field.enter startId name).hierarchyDepth ≠ 0 ∧
      (field.enter startId name).hierarchyDepth.toNat = depth.toNat + 1 := by
  rw [Field.enter, hfield]
  exact depth_succ depth h

/-- The description behind a nested struct. -/
def Field.leave (startId : UInt8) (name : Bytes) (previousSubFields : Int) : Field :=
  { field with
    intDataType := startId
    fieldName := name
    subfields := toInt16 (previousSubFields - 1) }

section ReadMember

variable {P : SerialiserProtocol} {check : ProtocolCheck} {α : Type} {size : Bytes → Nat}
  {ctx : MemberContext} {name : Bytes} {d a : α} {h : Holder} {x : Slot h α}
  {field field' : Field} {info info' : DeserialiserInfo} {m : Memory} {p p' : Nat}

variable (ctx : MemberContext)

/-- A plain member of the type that is on the wire. -/
theorem readPlain_spec (name : Bytes) (x : Slot h α) {requestedType : UInt8}
    (read : Field → α → Get (α × Field))
    (hclean : Clean size info) (htr : Tracked check ctx.parentName info)
    (hidx : check ≠ .ignore → ctx.fieldIndex < size ctx.parentName)
    (htype : requestedType = field.intDataType ∨ requestedType = P.otherId)
    (hread : read field (x.getOrCreate d) m p = .ok ((a, field'), p')) :
    ∃ info', readPlain P check ctx name requestedType d read x field info m p =
        .ok ((holding h a, field', info'), p') ∧ Clean size info' ∧ KeepsBitFields info info' := by
  obtain ⟨info', hmark, hclean', hkeeps⟩ := markSet_spec hclean htr hidx m p'
  refine ⟨info', ?_, hclean', hkeeps⟩
  rw [readPlain, if_neg (by rintro ⟨hne, hother⟩; exact htype.elim hne hother), bind_of_ok hread]
  show (markSet check ctx.parentName ctx.fieldIndex info >>= _) m p' = _
  rw [bind_of_ok hmark]
  rfl

/-- Another type on the wire is an error. -/
theorem readPlain_mismatch (name : Bytes) {requestedType : UInt8}
    (read : Field → α → Get (α × Field)) (x : Slot h α) (info : DeserialiserInfo) (d : α)
    (htype : requestedType ≠ field.intDataType ∧ requestedType ≠ P.otherId) :
    ∃ e, readPlain P .always ctx name requestedType d read x field info m p = .error e := by
  rw [readPlain, if_pos htype, moveToFieldEndBufferPosition]
  split_ifs with hend
  · rw [setPosition_bind]
    exact ⟨_, rfl⟩
  · exact ⟨_, rfl⟩

/-- A nested struct that its own loop reads. -/
theorem readNested_spec {R : StructReader α} {fuel : Nat} (hclean : Clean size info')
    (htr : Tracked check ctx.parentName info')
    (hidx : check ≠ .ignore → ctx.fieldIndex < size ctx.parentName)
    (hread : readStruct P check R fuel (field.enter P.startId name) (x.getOrCreate d) info m
      field.headerStart = .ok ((a, info'), p')) :
    ∃ info'', readNested P check R fuel ctx name d x field info m p =
        .ok ((holding h a, field.leave P.startId name ctx.previousSubFields, info''), p') ∧
      Clean size info'' ∧ KeepsBitFields info' info'' := by
  obtain ⟨info'', hmark, hclean', hkeeps⟩ := markSet_spec hclean htr hidx m p'
  refine ⟨info'', ?_, hclean', hkeeps⟩
  rw [Field.enter] at hread
  rw [readNested, setPosition_bind, bind_of_ok hread]
  show (markSet check ctx.parentName ctx.fieldIndex info' >>= _) m p' = _
  rw [bind_of_ok hmark]
  rfl

end ReadMember

/-! ## A struct as part of the one that is read -/

/-- The reader `R` reads the members `ms` at the indices from `pre.length`
on; `C` puts their values into the value that `R` reads. -/
structure Embeds (P : SerialiserProtocol) (fuel : Nat) (check : ProtocolCheck) {α : Type}
    (R : StructReader α) (pre : List Bytes) (ms : Members) (C : ms.Val → α) : Prop where
  names : R.names = pre ++ ms.names
  read : ∀ ctx i v field info, R.readMember ctx (pre.length + i) (C v) field info =
    (fun r => (C r.1, r.2)) <$> ms.readMember P fuel check ctx i v field info

section Embeds

variable {P : SerialiserProtocol} {fuel : Nat} {check : ProtocolCheck} {α : Type}
  {R : StructReader α} {pre : List Bytes}

theorem embeds_reader (P : SerialiserProtocol) (fuel : Nat) (check : ProtocolCheck)
    (typeName : Bytes) (ms : Members) :
    Embeds P fuel check (ms.reader P fuel check typeName) [] ms id where
  names := rfl
  read ctx i v field info := by
    rw [length_nil, zero_add]
    exact (id_map _).symm

variable {ms : Members} {C : ms.Val → α}

variable (h : Embeds P fuel check R pre ms C)
include h

/-- The reader of a list of members at its head. -/
theorem Embeds.head
    {ctx : MemberContext} {v v' : ms.Val} {field field' : Field} {info info' : DeserialiserInfo}
    {m : Memory} {p p' : Nat}
    (hread : ms.readMember P fuel check ctx 0 v field info m p = .ok ((v', field', info'), p')) :
    R.readMember ctx pre.length (C v) field info m p = .ok ((C v', field', info'), p') := by
  have hmember := h.read ctx 0 v field info
  rw [add_zero] at hmember
  rw [hmember]
  exact map_of_ok hread _

theorem Embeds.tail {rest : Members} {name : Bytes} {D : rest.Val → ms.Val} (hnames : ms.names = name :: rest.names)
    (hread : ∀ ctx i v field info, ms.readMember P fuel check ctx (i + 1) (D v) field info =
      (fun r => (D r.1, r.2)) <$> rest.readMember P fuel check ctx i v field info) :
    Embeds P fuel check R (pre ++ [name]) rest fun v => C (D v) where
  names := by rw [h.names, hnames, append_assoc, singleton_append]
  read ctx i v field info := by
    have hidx : (pre ++ [name]).length + i = pre.length + (i + 1) := by
      rw [length_append, length_singleton]
      omega
    rw [hidx, h.read, hread, Functor.map_map]

omit h

variable {name : Identifier} {holder : Holder} {ty : ValueTy} {n : Option Nat} {typeName : Bytes}
  {inner rest : Members}

theorem Embeds.tail_leaf {C : (Members.leaf name holder ty rest).Val → α}
    (h : Embeds P fuel check R pre (.leaf name holder ty rest) C) (x : Slot holder ty.Val) :
    Embeds P fuel check R (pre ++ [sanitizeFieldName name.bytes]) rest fun xs => C (x, xs) :=
  h.tail rfl fun _ _ _ _ _ => rfl

theorem Embeds.tail_nested {C : (Members.nested name holder typeName inner rest).Val → α}
    (h : Embeds P fuel check R pre (.nested name holder typeName inner rest) C)
    (x : Slot holder inner.Val) :
    Embeds P fuel check R (pre ++ [sanitizeFieldName name.bytes]) rest fun xs => C (x, xs) :=
  h.tail rfl fun _ _ _ _ _ => rfl

theorem Embeds.tail_structs {C : (Members.structs name holder n typeName inner rest).Val → α}
    (h : Embeds P fuel check R pre (.structs name holder n typeName inner rest) C)
    (x : Slot holder (Seq n inner.Val)) :
    Embeds P fuel check R (pre ++ [sanitizeFieldName name.bytes]) rest fun xs => C (x, xs) :=
  h.tail rfl fun _ _ _ _ _ => rfl

include h

/-- The head of the members is found by its name. -/
theorem Embeds.findMemberIndex {name : Bytes} {names : List Bytes} (hnames : ms.names = name :: names)
    (hnd : R.names.Nodup) : findMemberIndex R.names name = some pre.length := by
  rw [h.names, hnames] at hnd ⊢
  exact findMemberIndex_of_nodup hnd

theorem Embeds.lt_length {name : Bytes} {names : List Bytes} (hnames : ms.names = name :: names) :
    pre.length < R.names.length := by
  rw [h.names, hnames, length_append, length_cons]
  omega

omit h

variable {size : Bytes → Nat} {parentName : Bytes}
  {field field' : Field} {info info' : DeserialiserInfo} {m : Memory} {p p' : Nat}

/-- A member at the head that is no struct. -/
theorem Embeds.readPlain {β : Type} {head requestedName : Bytes} {names : List Bytes}
    {requestedType : UInt8} {d a : β} {read : Field → β → Get (β × Field)}
    (h : Embeds P fuel check R pre ms C) (hhead : ms.names = head :: names)
    (V : Slot holder β → ms.Val) (x : Slot holder β) (previousSubFields : Int)
    (hms : ∀ ctx, ms.readMember P fuel check ctx 0 (V x) field info = (fun r => (V r.1, r.2)) <$>
      Io.readPlain P check ctx requestedName requestedType d read x field info)
    (hnames : check ≠ .ignore → R.names.length = size parentName) (hclean : Clean size info)
    (htr : Tracked check parentName info)
    (htype : requestedType = field.intDataType ∨ requestedType = P.otherId)
    (hread : read field (x.getOrCreate d) m p = .ok ((a, field'), p')) :
    ∃ info', R.readMember ⟨parentName, pre.length, previousSubFields⟩ pre.length (C (V x)) field
        info m p = .ok ((C (V (holding holder a)), field', info'), p') ∧
      Clean size info' ∧ KeepsBitFields info info' := by
  obtain ⟨info', hplain, hclean', hkeeps⟩ :=
    readPlain_spec ⟨parentName, pre.length, previousSubFields⟩ requestedName x read hclean htr
      (fun hcheck => hnames hcheck ▸ h.lt_length hhead) htype hread
  refine ⟨info', h.head ?_, hclean', hkeeps⟩
  rw [hms]
  exact map_of_ok hplain fun r => (V r.1, r.2)

/-- A nested struct at the head. -/
theorem Embeds.readNested {C : (Members.nested name holder typeName inner rest).Val → α}
    {a : inner.Val} (h : Embeds P fuel check R pre (.nested name holder typeName inner rest) C)
    (x : Slot holder inner.Val) (xs : rest.Val) (previousSubFields : Int)
    (hnames : check ≠ .ignore → R.names.length = size parentName) (htr : Tracked check parentName info)
    (hclean : Clean size info') (hkeeps : KeepsBitFields info info')
    (hread : readStruct P check (inner.reader P fuel check typeName) fuel
      (field.enter P.startId (sanitizeFieldName name.bytes)) (x.getOrCreate inner.default) info m
        field.headerStart = .ok ((a, info'), p')) :
    ∃ info'', R.readMember ⟨parentName, pre.length, previousSubFields⟩ pre.length (C (x, xs)) field
        info m p = .ok ((C (holding holder a, xs),
          field.leave P.startId (sanitizeFieldName name.bytes) previousSubFields, info''), p') ∧
      Clean size info'' ∧ KeepsBitFields info info'' := by
  obtain ⟨info'', hnested, hclean', hkeeps'⟩ :=
    readNested_spec ⟨parentName, pre.length, previousSubFields⟩ hclean
      (htr.of_keeps hkeeps) (fun hcheck => hnames hcheck ▸ h.lt_length rfl) hread
  exact ⟨info'', h.head (map_of_ok hnested fun r => ((r.1, xs), r.2)), hclean',
    hkeeps.trans hkeeps'⟩

end Embeds

/-! ## Stretches of the loop -/

/-- The loop of `R` goes in `n` rounds from the value `a` at position `p`
to the value `b` at position `q`, and the field description from `I` to
`J`, without a report and without losing a bit field. -/
def Consumes {α : Type} (R : StructReader α)
    (parentName : Bytes) (size : Bytes → Nat) (m : Memory) (n : Nat) (I : Field → Prop) (a : α)
    (p : Nat) (J : Field → Prop) (b : α) (q : Nat) : Prop :=
  ∀ field info, I field → Clean size info → Tracked check parentName info → ∀ rounds,
    ∃ field' info', J field' ∧ Clean size info' ∧ KeepsBitFields info info' ∧
      readFields P check R parentName (rounds + n) a field info m p =
        readFields P check R parentName rounds b field' info' m q

section Consumes

variable {P : SerialiserProtocol} {check : ProtocolCheck} {α : Type} {R : StructReader α}
  {parentName : Bytes} {size : Bytes → Nat} {m : Memory} {n n' : Nat} {I J K : Field → Prop}
  {a b c : α} {p q r : Nat}

theorem Consumes.refl : Consumes P check R parentName size m 0 I a p I a p :=
  fun field info hI hclean _ _ => ⟨field, info, hI, hclean, KeepsBitFields.refl info, rfl⟩

theorem Consumes.trans (h : Consumes P check R parentName size m n I a p J b q)
    (h' : Consumes P check R parentName size m n' J b q K c r) :
    Consumes P check R parentName size m (n + n') I a p K c r := by
  intro field info hI hclean htr rounds
  obtain ⟨field₁, info₁, hJ, hclean₁, hkeeps₁, hrun₁⟩ :=
    h field info hI hclean htr (rounds + n')
  obtain ⟨field₂, info₂, hK, hclean₂, hkeeps₂, hrun₂⟩ :=
    h' field₁ info₁ hJ hclean₁ (htr.of_keeps hkeeps₁) rounds
  refine ⟨field₂, info₂, hK, hclean₂, hkeeps₁.trans hkeeps₂, ?_⟩
  rw [add_comm n n', ← add_assoc, hrun₁, hrun₂]

/-- One member: its header names it, and its reader ends where the header
says, if it says so. -/
theorem Consumes.member (index : Nat) (hp : p < m.size)
    (hrnd : ∀ field info, I field → Clean size info → Tracked check parentName info →
      ∃ field₁ q₁ field₂ info₂, P.getHeader check info field m p = .ok ((info, field₁), q₁) ∧
        field₁.intDataType ≠ P.endId ∧ findMemberIndex R.names field₁.fieldName = some index ∧
        R.readMember ⟨parentName, index, field.subfields⟩ index a field₁ info m
          field₁.dataStartPosition = .ok ((b, field₂, info₂), q) ∧
        (field₂.dataEndPosition = sizeMax ∨ field₂.dataEndPosition = q) ∧
        J field₂ ∧ Clean size info₂ ∧ KeepsBitFields info info₂) :
    Consumes P check R parentName size m 1 I a p J b q := by
  intro field info hI hclean htr rounds
  obtain ⟨field₁, q₁, field₂, info₂, hhdr, hend, hidx, hread, hdata, hJ, hclean₂, hkeeps⟩ :=
    hrnd field info hI hclean htr
  exact ⟨field₂, info₂, hJ, hclean₂, hkeeps, readFields_member hp hhdr hend hidx hread hdata⟩

/-- The whole loop, when it stops behind the stretch. -/
theorem Consumes.readFields_eq {fuel : Nat} {field : Field} {info : DeserialiserInfo}
    (h : Consumes P check R parentName size m n I a p J b q) (hI : I field)
    (hclean : Clean size info) (htr : Tracked check parentName info) (hfuel : n < fuel)
    (hstop : ∀ field' info' rounds, J field' →
      readFields P check R parentName (rounds + 1) b field' info' m q = .ok ((b, info'), r)) :
    ∃ info', readFields P check R parentName fuel a field info m p = .ok ((b, info'), r) ∧
      Clean size info' ∧ KeepsBitFields info info' := by
  obtain ⟨field', info', hJ, hclean', hkeeps, hrun⟩ :=
    h field info hI hclean htr (fuel - n - 1 + 1)
  refine ⟨info', ?_, hclean', hkeeps⟩
  rw [show fuel = fuel - n - 1 + 1 + n by omega, hrun]
  exact hstop field' info' _ hJ

end Consumes

end OpenCmw.Io
