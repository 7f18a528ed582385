import OpenCmw.StructLoops
import OpenCmw.YasSerialiser
import OpenCmw.CmwLightSerialiser

/-!
# Which bytes the binary readers look at

`IoBuffer` reads numbers, strings and arrays without a look at the size of
the buffer, with lengths that the message gives. A `Layout` says for each
part of a message what has to be in the buffer: the header of a field, what
stands behind the start of a struct, the data of a value. A reader that
throws at the first error stays inside the buffer exactly if this holds for
every header that its loops come to (`Layout.inside_deserialise_iff`).
-/

namespace OpenCmw.Io

open ByteReader (iterate)
open ByteReader
open Relation (ReflTransGen)

/-! ## Rounds, with the number of those left -/

section Goes

variable (P : SerialiserProtocol) (fuel : Nat) (m : Memory)

/-- From one round to the next of the same loop, or to the first of a loop
that it starts. -/
inductive Goes : Config × Nat → Config × Nat → Prop
  | next {L : Loop} {x y : L.State} {rounds : Nat} : Next (L.step P fuel) m x y →
      Goes (⟨L, x⟩, rounds + 1) (⟨L, y⟩, rounds)
  | enter {c c' : Config} {rounds : Nat} : Enters P fuel m noCalls c c' →
      Goes (c, rounds + 1) (c', fuel)

end Goes

/-! ## Layouts -/

/-- What has to be in the buffer for each part of a message, if errors are
thrown. -/
structure Layout (P : SerialiserProtocol) (m : Memory) where
  Prelude : Prop
  Header : Field → Nat → Prop
  Start : Field → Nat → Prop
  Data : (t : ValueTy) → Field → t.Val → Nat → Prop
  prelude_iff : Inside (P.checkHeaderInfo .always {}) m 0 ↔ Prelude
  header_iff : ∀ info f p, Inside (P.getHeader .always info f) m p ↔ Header f p
  start_iff : ∀ f p, Inside (P.getStart f) m p ↔ Start f p
  data_iff : ∀ t f old p, Inside (P.getLeaf t f old) m p ↔ Data t f old p
  structs : ∀ {α : Type} n f (d : α) readOne old p, Inside (P.getStructs n f d readOne old) m p

namespace Layout

variable {P : SerialiserProtocol} {fuel : Nat} {m : Memory} (Λ : Layout P m)

/-- The header of a struct and what its start marker reads. -/
def Begins (typeName : Bytes) (n : Nat) (parent : Field) (info : DeserialiserInfo) (p : Nat) : Prop :=
  Λ.Header (newFieldHeader m.size [] parent.hierarchyDepth P.structId (-1)) p ∧
    After (P.getHeader .always (initSetFields .always parent.fieldName n info)
      (newFieldHeader m.size [] parent.hierarchyDepth P.structId (-1))) m p fun header q =>
        ¬ (header.2.hierarchyDepth = 0 ∧ header.2.fieldName ≠ typeName ∧ header.2.fieldName ≠ []) →
          Λ.Start header.2 q

/-- The data of a member: of a plain one if it has the type that is asked
for, of a nested struct its beginning. -/
def Member (field : Field) (info : DeserialiserInfo) : (k : MemberKind) → k.Val → Prop
  | .leaf _ _ ty, x => P.typeId ty = field.intDataType ∨ P.typeId ty = P.otherId →
      Λ.Data ty field (x.getOrCreate ty.default) field.dataStartPosition
  | .nested name _ typeName inner, _ =>
    Λ.Begins typeName inner.names.length (field.enter P.startId (sanitizeFieldName name.bytes)) info
      field.headerStart
  | _, _ => True

/-- What a round of a loop looks at. -/
def Round (c : Config) : Prop :=
  c.2.2 < m.size → Λ.Header c.2.1.field c.2.2 ∧
    After (P.getHeader .always c.2.1.info c.2.1.field) m c.2.2 fun header _ =>
      header.2.intDataType ≠ P.endId → ∀ index,
        findMemberIndex c.1.members.names header.2.fieldName = some index →
          Λ.Member header.2 header.1 (c.1.members.kindAt index) (c.1.members.getAt index c.2.1.value)

/-- What a whole message has to be. -/
def Message (fuel : Nat) (T : StructTy) (value : T.members.Val) : Prop :=
  Λ.Prelude ∧ After (P.checkHeaderInfo .always {}) m 0 fun info q =>
    Λ.Begins T.typeName T.members.names.length (newFieldHeader m.size rootName 0 P.structId (-1)) info q ∧
      ∀ c, StructBegins P m .always T.typeName T.members
          (newFieldHeader m.size rootName 0 P.structId (-1)) value info q c →
        ∀ v, ReflTransGen (Goes P fuel m) (c, fuel) v → v.2 ≠ 0 → Λ.Round v.1

section Inside

variable {Λ}

variable {p : Nat} {info : DeserialiserInfo}

theorem inside_throwProtocol {α : Type} (e : ProtocolException) :
    Inside (throwProtocol e : Get α) m p := inside_fail nofun

theorem inside_handleUnlessIgnored (check : ProtocolCheck) (info : DeserialiserInfo)
    (e : ProtocolException) : Inside (handleUnlessIgnored check info e) m p := by
  refine inside_ite_iff.mpr ⟨fun _ => inside_pure _, fun _ => ?_⟩
  cases check with
  | always => exact inside_throwProtocol e
  | lenient => exact inside_pure _
  | ignore => exact inside_pure _

theorem inside_markSet (name : Bytes) (index : Nat) (info : DeserialiserInfo) :
    Inside (markSet .always name index info) m p := by
  refine inside_ite_iff.mpr ⟨fun _ => inside_pure _, fun _ => ?_⟩
  cases info.setFields.find? name with
  | none => exact inside_fail nofun
  | some bits =>
    exact inside_ite_iff.mpr
      ⟨fun _ => inside_pure _, fun _ => inside_fail nofun⟩

theorem inside_startStruct_iff {typeName : Bytes} {n : Nat} {parent : Field} : Inside (startStruct P .always typeName n parent info) m p ↔
      Λ.Begins typeName n parent info p := by
  unfold startStruct Begins checkTypeName
  dsimp only
  rw [inside_size_bind]
  refine inside_bind_iff (Λ.header_iff _ _ _) fun header q => ?_
  by_cases hname : header.2.hierarchyDepth = 0 ∧ header.2.fieldName ≠ typeName ∧ header.2.fieldName ≠ []
  · rw [if_pos hname]
    exact iff_of_true (fun h => nomatch h) fun h => absurd hname h
  · rw [if_neg hname, pure_bind]
    have hstart := Λ.start_iff header.2 q
    refine Iff.trans (inside_bind_left fun _ _ => ?_) (hstart.trans ⟨fun h _ => h, fun h => h hname⟩)
    exact fun h => nomatch h

/-- A struct is read inside the buffer if its beginning and its loop are. -/
theorem inside_readStruct_iff {typeName : Bytes} {ms : Members} {parent : Field} {value : ms.Val} :
    Inside (readStruct P .always (ms.reader P fuel .always typeName) fuel parent value info) m p ↔
      Λ.Begins typeName ms.names.length parent info p ∧
        ∀ c, StructBegins P m .always typeName ms parent value info p c →
          Inside (iterate (c.1.step P fuel) fuel c.2.1) m c.2.2 := by
  have hfields : ∀ (s : DeserialiserInfo × Field) q, Inside (readFields P .always
      (ms.reader P fuel .always typeName) parent.fieldName fuel value s.2 s.1) m q ↔
        Inside (iterate ((⟨typeName, ms, .always, parent.fieldName⟩ : Loop).step P fuel) fuel
          ⟨value, s.2, s.1⟩) m q := by
    intro s q
    rw [readFields_eq_iterate]
    rfl
  rw [readStruct_eq_start, inside_bind_iff inside_startStruct_iff hfields]
  refine and_congr_right fun _ => ⟨?_, ?_⟩
  · rintro h c ⟨info', field', q, hstart, rfl⟩
    exact h (info', field') q hstart
  · intro h s q hstart
    exact h _ ⟨s.1, s.2, q, hstart, rfl⟩

theorem inside_skipUnknownField (parentName : Bytes) (field : Field) (info : DeserialiserInfo) :
    Inside (skipUnknownField P .always parentName field info) m p := by
  rw [skipUnknownField_eq]
  exact fun h => nomatch h

theorem inside_skipToDataEnd (field : Field) (info : DeserialiserInfo) :
    Inside (skipToDataEnd .always field info) m p := by
  unfold skipToDataEnd
  rw [inside_position_bind]
  split_ifs with hend
  · exact fun h => nomatch h
  · exact inside_pure _

theorem inside_readPlain_iff {ctx : MemberContext} {name : Bytes} {requestedType : UInt8} {α : Type}
    {d : α} {read : Field → α → Get (α × Field)} {holder : Holder} {x : Slot holder α} {f : Field} :
    Inside (readPlain P .always ctx name requestedType d read x f info) m p ↔
      (requestedType = f.intDataType ∨ requestedType = P.otherId →
        Inside (read f (x.getOrCreate d)) m p) := by
  have hmark : ∀ (r : α × Field) q, Inside (markSet .always ctx.parentName ctx.fieldIndex info >>=
      fun info => pure (Slot.holding holder r.1, r.2, info)) m q := fun r q =>
    (inside_bind_left fun _ _ => inside_pure _).mpr (inside_markSet _ _ _)
  unfold readPlain
  by_cases htype : requestedType ≠ f.intDataType ∧ requestedType ≠ P.otherId
  · rw [if_pos htype]
    refine iff_of_true ?_ fun h => absurd h (by tauto)
    unfold moveToFieldEndBufferPosition
    split_ifs with hend
    · exact fun h => nomatch h
    · exact fun h => nomatch h
  · rw [if_neg htype]
    refine (inside_bind_left hmark).trans ⟨fun h _ => h, fun h => h (by tauto)⟩

/-- A member is read inside the buffer if its data is there, and the loop
that it starts stays inside. -/
theorem inside_read_iff {ctx : MemberContext} {k : MemberKind} {x : k.Val} {f : Field} :
    Inside (k.read P fuel .always ctx x f info) m f.dataStartPosition ↔ Λ.Member f info k x ∧
      ∀ c, k.Enters P fuel m noCalls .always x f info c →
        Inside (iterate (c.1.step P fuel) fuel c.2.1) m c.2.2 := by
  cases k with
  | none => exact iff_of_true (inside_pure _) ⟨trivial, fun _ h => h.elim⟩
  | leaf name holder ty =>
    rw [MemberKind.read, inside_readPlain_iff, Λ.data_iff]
    exact ⟨fun h => ⟨h, fun _ h => h.elim⟩, fun h => h.1⟩
  | structs name holder n typeName inner =>
    rw [MemberKind.read, inside_readPlain_iff]
    refine iff_of_true (fun _ => ?_) ⟨trivial, fun c h => ?_⟩
    · exact (inside_map_iff _).mpr (Λ.structs _ _ _ _ _ _)
    · obtain ⟨-, q, hcall, -⟩ := h
      exact hcall.elim
  | nested name holder typeName inner =>
    rw [MemberKind.read, readNested, inside_setPosition_bind, inside_bind_left fun r q => ?_]
    · exact inside_readStruct_iff
    · exact (inside_bind_left fun _ _ => inside_pure _).mpr (inside_markSet _ _ _)

/-- What stands behind a header. -/
theorem inside_follow_iff {L : Loop} (hcheck : L.check = .always) {value : L.members.Val} {i : Int} {field : Field} :
    Inside (L.follow P fuel value i info field) m field.dataStartPosition ↔
      ∀ index, findMemberIndex L.members.names field.fieldName = some index →
        Λ.Member field info (L.members.kindAt index) (L.members.getAt index value) ∧
          ∀ c, (L.members.kindAt index).Enters P fuel m noCalls L.check (L.members.getAt index value)
              field info c → Inside (iterate (c.1.step P fuel) fuel c.2.1) m c.2.2 := by
  rw [Loop.follow, hcheck]
  cases hidx : findMemberIndex L.members.names field.fieldName with
  | none =>
    refine iff_of_true ?_ fun index h => ?_
    · exact (inside_bind_left fun _ _ => inside_pure _).mpr
        (inside_skipUnknownField _ _ _)
    · cases h
  | some index =>
    refine Iff.trans (inside_bind_left fun r q => ?_) ?_
    · exact (inside_bind_left fun _ _ => inside_pure _).mpr
        (inside_skipToDataEnd _ _)
    · refine inside_read_iff.trans ⟨fun h index' hidx' => ?_, fun h => h index rfl⟩
      cases hidx'
      exact h

/-- A round stays inside the buffer if what it looks at is there, and the
loop that it starts stays inside. -/
theorem inside_step_iff {L : Loop} (hcheck : L.check = .always) (x : L.State) :
    Inside (L.step P fuel x.1) m x.2 ↔ Λ.Round ⟨L, x⟩ ∧ ∀ c, Enters P fuel m noCalls ⟨L, x⟩ c →
        Inside (iterate (c.1.step P fuel) fuel c.2.1) m c.2.2 := by
  rw [Loop.step_eq, inside_position_bind, inside_size_bind]
  by_cases hp : x.2 < m.size
  · rw [if_pos hp, hcheck, inside_bind_iff (Λ.header_iff _ _ _) fun header q =>
      inside_setPosition_bind.trans (inside_ite_iff.trans
        (and_congr Iff.rfl (imp_congr_right fun _ =>
          (inside_map_iff _).trans (inside_follow_iff hcheck))))]
    constructor
    · rintro ⟨hhdr, hrest⟩
      refine ⟨fun _ => ⟨hhdr, fun header q hread hend index hidx =>
        ((hrest header q hread).2 hend index hidx).1⟩, ?_⟩
      rintro c ⟨-, info, field, q, index, hread, hend, hidx, henters⟩
      rw [hcheck] at hread
      exact ((hrest (info, field) q hread).2 hend index hidx).2 c henters
    · rintro ⟨hrnd, hloop⟩
      refine ⟨(hrnd hp).1, fun header q hread => ⟨fun _ => inside_pure _,
        fun hend index hidx => ⟨(hrnd hp).2 header q hread hend index hidx,
          fun c henters => hloop c ?_⟩⟩⟩
      exact ⟨hp, header.1, header.2, q, index, by dsimp only; rw [hcheck]; exact hread, hend, hidx, henters⟩
  · rw [if_neg hp, inside_map_iff]
    refine iff_of_true ?_ ⟨fun h => absurd h hp, fun c h => absurd h.1 hp⟩
    unfold checkBufferEnd
    rw [inside_position_bind, inside_size_bind]
    split_ifs with hleft
    · exact inside_handleUnlessIgnored _ _ _
    · exact inside_pure _

theorem check_of_enters {c c' : Config} (hcheck : c.1.check = .always)
    (h : Enters P fuel m noCalls c c') : c'.1.check = .always := by
  obtain ⟨-, _, _, q, index, -, -, -, henters⟩ := h
  generalize c.1.members.getAt index c.2.1.value = x at henters
  generalize c.1.members.kindAt index = k at x henters
  cases k with
  | none => exact henters.elim
  | leaf name holder ty => exact henters.elim
  | nested name holder typeName inner =>
    obtain ⟨_, _, _, -, rfl⟩ := henters
    exact hcheck
  | structs name holder n typeName inner =>
    obtain ⟨-, _, hcall, -⟩ := henters
    exact hcall.elim

/-- A loop stays inside the buffer if all its rounds do, and those of the
loops that they start: by induction on the members, then on the rounds. -/
theorem inside_iterate_iff {c : Config} (hcheck : c.1.check = .always) {rounds : Nat} :
    Inside (iterate (c.1.step P fuel) rounds c.2.1) m c.2.2 ↔
      ∀ v, ReflTransGen (Goes P fuel m) (c, rounds) v → v.2 ≠ 0 → Λ.Round v.1 := by
  induction hn : sizeOf c.1.members using Nat.strong_induction_on generalizing c rounds with
  | h n ih =>
    obtain ⟨L, x⟩ := c
    induction rounds generalizing x with
    | zero =>
      refine iff_of_true (fun h => nomatch h) fun v hv hne => ?_
      rcases ReflTransGen.cases_head hv with rfl | ⟨u, hu, -⟩
      · exact absurd rfl hne
      · cases hu
    | succ rounds ihrounds =>
      rw [ByteReader.inside_iterate_succ_iff, inside_step_iff hcheck x]
      constructor
      · rintro ⟨⟨hrnd, hloop⟩, hrest⟩ v hv hne
        rcases ReflTransGen.cases_head hv with rfl | ⟨u, hu, huv⟩
        · exact hrnd
        · cases hu with
          | @next _ _ y _ hstep => exact (ihrounds y hcheck hn).mp (hrest _ _ hstep) v huv hne
          | enter henters =>
            have hinside := hloop _ henters
            rw [ih _ (hn ▸ henters.sizeOf_lt) (check_of_enters hcheck henters) rfl] at hinside
            exact hinside v huv hne
      · intro h
        refine ⟨⟨h _ .refl (Nat.succ_ne_zero rounds), fun c henters => ?_⟩, fun s' p' hstep => ?_⟩
        · rw [ih _ (hn ▸ henters.sizeOf_lt) (check_of_enters hcheck henters) rfl]
          exact fun v hv => h v (.head (.enter henters) hv)
        · exact (ihrounds (s', p') hcheck hn).mpr fun v hv => h v (.head (.next hstep) hv)

/-- A message is read inside the buffer exactly if each part of it that the
reader comes to is there. -/
theorem inside_deserialise_iff {T : StructTy} {value : T.members.Val} :
    Inside (deserialise P .always fuel T value) m 0 ↔ Λ.Message fuel T value := by
  refine inside_bind_iff Λ.prelude_iff fun info q => ?_
  rw [if_neg nofun, inside_size_bind, inside_readStruct_iff]
  refine and_congr_right fun _ => forall_congr' fun c => forall_congr' fun hc => ?_
  refine inside_iterate_iff ?_
  obtain ⟨_, _, _, -, rfl⟩ := hc
  rfl

end Inside

end Layout

/-! ## Numbers, strings and arrays -/

/-- A buffer behind which nothing may be looked at. -/
def onlyBuffer (data : Bytes) : Memory := ⟨data, fun _ => none⟩

section Fits

variable (m : Memory)

/-- A string: its length, and as many characters. -/
def StringFits (p : Nat) : Prop :=
  m.Fits p 4 ∧ After (getInt 4 : Get Int) m p fun n q => m.Fits q (toSize (n - 1))

def ScalarFits : Scalar → Nat → Prop
  | .bool, p => m.Fits p 1
  | .int w, p => m.Fits p w.size
  | .string, p => StringFits m p

/-- So many values one behind the other. -/
def TimesFit {α : Type} (r : Get α) (F : Nat → Prop) : Nat → Nat → Prop
  | 0, _ => True
  | n + 1, p => F p ∧ After r m p fun _ q => TimesFit r F n q

/-- An array: its size, and as many elements, but not more than bytes are
left or elements are asked for. -/
def ArrayFits (s : Scalar) (requestedSize p : Nat) : Prop :=
  m.Fits p 4 ∧ After (getInt 4 : Get Int) m p fun wireSize q =>
    TimesFit m (getScalar s) (ScalarFits m s)
      (min (min (toSize wireSize) (toSize ((m.size : Int) - q))) requestedSize) q

/-- The dimensions, then the elements. -/
def MultiArrayFits (s : Scalar) (n p : Nat) : Prop :=
  ArrayFits m (.int .w32) n p ∧ After (getDims n) m p fun _ q => ArrayFits m s sizeMax q

variable {m} {p : Nat} (hm : ∀ i, m.beyond i = none)
include hm

theorem inside_getByte_iff : Inside getByte m p ↔ m.Fits p 1 := by
  have hbyte := Memory.byteAt_isSome_iff (p := p) hm
  unfold Inside getByte Memory.Fits
  cases h : m.byteAt p with
  | none =>
    rw [h] at hbyte
    have hp : ¬ p < m.size := fun hp => Bool.false_ne_true (hbyte.mpr hp)
    exact iff_of_false (fun h => h rfl) (by omega)
  | some b =>
    rw [h] at hbyte
    have hp := hbyte.mp rfl
    exact iff_of_true nofun (by omega)

theorem inside_getInt_iff (k : Nat) : Inside (getInt k : Get Int) m p ↔ m.Fits p k :=
  (inside_map_iff _).trans (inside_take_iff hm k)

theorem inside_getString_iff : Inside getString m p ↔ StringFits m p := by
  refine inside_bind_iff (inside_getInt_iff hm 4) fun n q => ?_
  rw [inside_position_bind]
  refine Iff.trans (inside_bind_left fun _ _ => ?_) (inside_take_iff hm _)
  exact fun h => nomatch h

theorem inside_getScalar_iff : (s : Scalar) → (Inside (getScalar s) m p ↔ ScalarFits m s p)
  | .bool => (inside_map_iff _).trans (inside_take_iff hm 1)
  | .int w => (inside_map_iff _).trans (inside_getInt_iff hm w.size)
  | .string => inside_getString_iff hm

omit hm in
theorem inside_times_iff {α : Type} {r : Get α} {F : Nat → Prop} (h : ∀ q, Inside r m q ↔ F q) :
    ∀ {n p : Nat}, Inside (r.times n) m p ↔ TimesFit m r F n p
  | 0, _ => iff_of_true (inside_pure _) trivial
  | _ + 1, p => inside_bind_iff (h p) fun _ _ =>
    (inside_bind_left fun _ _ => inside_pure _).trans (inside_times_iff h)

variable {s : Scalar}

theorem inside_getArray_iff {requestedSize : Nat} :
    Inside (getArray s requestedSize) m p ↔ ArrayFits m s requestedSize p := by
  refine inside_bind_iff (inside_getInt_iff hm 4) fun wireSize q => ?_
  rw [inside_size_bind, inside_position_bind]
  exact inside_times_iff fun q => inside_getScalar_iff hm s

theorem inside_getArrayInto_iff {n : Option Nat} {requestedSize : Nat} {old : Seq n s.Val} :
    Inside (getArrayInto s n requestedSize old) m p ↔ ArrayFits m s requestedSize p := by
  refine Iff.trans (inside_bind_left fun vs q => ?_) (inside_getArray_iff hm)
  cases old.fill vs with
  | none => exact inside_fail nofun
  | some v => exact inside_pure v

theorem inside_getMultiArray_iff {n : Nat} :
    Inside (getMultiArray s n) m p ↔ MultiArrayFits m s n p :=
  inside_bind_iff (inside_getArrayInto_iff hm) fun _ _ =>
    (inside_bind_left fun _ _ => inside_pure _).trans (inside_getArray_iff hm)

end Fits

/-! ## YaS -/

namespace Yas

open Layout

section Fits

variable (m : Memory)

/-- The magic number; the name, if it is right; the version, if both are. -/
def PreludeFits : Prop :=
  m.Fits 0 4 ∧ After (getInt 4 : Get Int) m 0 fun magic p => magic = -1 →
    StringFits m p ∧ After getString m p fun protoName p => protoName = str "YaS" →
      m.Fits p 1 ∧ After (getInt 1 : Get Int) m p fun _ p =>
        m.Fits p 1 ∧ After (getInt 1 : Get Int) m p fun _ p => m.Fits p 1

/-- An optional string between the name and the data. -/
def MetaStringFits (dataStart p : Nat) : Prop := p ≠ dataStart → StringFits m p

/-- The type, the two numbers, the name, and the strings and the modifier
between the name and the data. -/
def HeaderFits (p : Nat) : Prop :=
  m.Fits p 1 ∧ After getByte m p fun _ q =>
    m.Fits q 4 ∧ After (getInt 4 : Get Int) m q fun dataStartOffset q =>
      m.Fits q 4 ∧ After (getInt 4 : Get Int) m q fun _ q =>
        StringFits m q ∧ After getString m q fun _ q =>
          let dataStart := toSize ((p : Int) + dataStartOffset)
          MetaStringFits m dataStart q ∧ After (getMetaString dataStart) m q fun _ q =>
            MetaStringFits m dataStart q ∧ After (getMetaString dataStart) m q fun _ q =>
              MetaStringFits m dataStart q ∧ After (getMetaString dataStart) m q fun _ q =>
                q ≠ dataStart → m.Fits q 1

/-- The values of a map, as long as there are keys. -/
def EntriesFit {V : Type} (r : Nat → Get V) (F : Nat → Nat → Prop) : Nat → Nat → Nat → Nat → Prop
  | _, 0, _, _ => True
  | i, _ + 1, 0, p => F i p
  | i, n + 1, keys + 1, p => F i p ∧ After (r i) m p fun _ q => EntriesFit r F (i + 1) n keys q

def DataFits : ValueTy → Field → Nat → Prop
  | .scalar s, _, p => ScalarFits m s p
  | .array _ s, _, p =>
    ArrayFits m (.int .w32) 1 p ∧ After (getDims 1) m p fun _ p => ArrayFits m s sizeMax p
  | .set s, _, p =>
    ArrayFits m (.int .w32) 1 p ∧ After (getDims 1) m p fun size p =>
      ArrayFits m s (toSize size.head.val) p
  | .multiArray s n, _, p => MultiArrayFits m s (n + 1) p
  | .map _ key value, field, p =>
    m.Fits p 4 ∧ After getCount m p fun nElements p =>
      m.Fits p 1 ∧ After getByte m p fun keyType p => scalarId key = keyType →
        m.Fits p 4 ∧ After getCount m p fun nKeys p => nElements = nKeys →
          TimesFit m (getScalar key) (ScalarFits m key) nKeys p ∧
          After ((getScalar key).times nKeys) m p fun keys p =>
            m.Fits p 1 ∧ After getByte m p fun valueType p =>
              match value.scalar? with
              | some s => scalarId s = valueType →
                  m.Fits p 4 ∧ After getCount m p fun nValues p => nElements = nValues →
                    EntriesFit m (fun _ => get value field value.default)
                      (fun _ => DataFits value field) 0 nValues keys.length p
              | none => valueType = otherId → StringFits m p ∧ After getString m p fun _ p =>
                    StringFits m p ∧ After getString m p fun _ p =>
                      m.Fits p 4 ∧ After (getInt 4 : Get Int) m p fun nValues p =>
                        EntriesFit m (fun i => get value (entryField field i) value.default)
                          (fun i => DataFits value (entryField field i)) 0 (toSize nValues)
                          keys.length p

variable {m} {p : Nat} (hm : ∀ i, m.beyond i = none)
include hm

theorem inside_checkHeaderInfo_iff : Inside (checkHeaderInfo .always {}) m 0 ↔ PreludeFits m := by
  refine inside_bind_iff (inside_getInt_iff hm 4) fun magic p =>
    inside_unless_iff (inside_handleUnlessIgnored _ _ _) ?_
  refine inside_bind_iff (inside_getString_iff hm) fun protoName p =>
    inside_unless_iff (inside_handleUnlessIgnored _ _ _) ?_
  refine inside_bind_iff (inside_getInt_iff hm 1) fun major p =>
    inside_bind_iff (inside_getInt_iff hm 1) fun minor p =>
      Iff.trans (inside_bind_left fun micro p => ?_) (inside_getInt_iff hm 1)
  exact inside_ite_iff.mpr ⟨fun _ => inside_handleUnlessIgnored _ _ _, fun _ => inside_pure _⟩

theorem inside_getMetaString_iff {dataStart : Nat} :
    Inside (getMetaString dataStart) m p ↔ MetaStringFits m dataStart p := by
  unfold getMetaString MetaStringFits
  rw [inside_position_bind, inside_ite_iff]
  refine Iff.trans (and_iff_right fun _ => inside_pure _) (imp_congr_right fun _ => ?_)
  exact (inside_bind_left fun _ _ => inside_pure _).trans (inside_getString_iff hm)

theorem inside_getHeader_iff (info : DeserialiserInfo) (field : Field) :
    Inside (getHeader .always info field) m p ↔ HeaderFits m p := by
  unfold getHeader HeaderFits
  rw [inside_position_bind]
  refine inside_bind_iff (inside_getByte_iff hm) fun _ q =>
    inside_bind_iff (inside_getInt_iff hm 4) fun dataStartOffset q =>
      inside_bind_iff (inside_getInt_iff hm 4) fun dataSize q =>
        inside_bind_iff (inside_getString_iff hm) fun name q => ?_
  refine Iff.trans (inside_bind_left fun _ _ => inside_pure _) ?_
  refine inside_bind_iff (inside_getMetaString_iff hm) fun _ q =>
    inside_bind_iff (inside_getMetaString_iff hm) fun _ q =>
      inside_bind_iff (inside_getMetaString_iff hm) fun _ q => ?_
  rw [inside_position_bind, inside_ite_iff]
  refine Iff.trans (and_iff_right fun _ => inside_pure _) (imp_congr_right fun _ => ?_)
  exact (inside_bind_left fun _ _ => inside_pure _).trans (inside_getByte_iff hm)

omit hm in
theorem inside_getEntries_iff {K V : Type} [LinearOrder K] {r : Nat → Get V} {F : Nat → Nat → Prop}
    (h : ∀ i q, Inside (r i) m q ↔ F i q) : ∀ {n i p : Nat} {keys : List K} {old : SortedMap K V},
      Inside (getEntries r i n keys old) m p ↔ EntriesFit m r F i n keys.length p
  | 0, _, _, _, _ => iff_of_true (inside_pure _) trivial
  | n + 1, i, p, [], old => by
    rw [getEntries]
    refine Iff.trans (inside_bind_left fun _ _ => ?_) (h i p)
    exact inside_fail nofun
  | n + 1, i, p, k :: keys, old => by
    rw [getEntries]
    exact inside_bind_iff (h i p) fun _ _ => inside_getEntries_iff h

theorem inside_getCount_iff : Inside getCount m p ↔ m.Fits p 4 :=
  (inside_map_iff _).trans (inside_getInt_iff hm 4)

theorem inside_get_iff : (t : ValueTy) → (field : Field) → (old : t.Val) → (p : Nat) →
    (Inside (get t field old) m p ↔ DataFits m t field p)
  | .scalar s, _, _, _ => inside_getScalar_iff hm s
  | .array _ _, _, _, _ => inside_bind_iff (inside_getArrayInto_iff hm) fun _ _ =>
    inside_getArrayInto_iff hm
  | .set _, _, _, _ => inside_bind_iff (inside_getArrayInto_iff hm) fun _ _ =>
    (inside_bind_left fun _ _ => inside_pure _).trans (inside_getArray_iff hm)
  | .multiArray _ _, _, _, _ => inside_getMultiArray_iff hm
  | .map _ key value, field, old, p => by
    have hval := fun field p => inside_get_iff value field value.default p
    rw [get, DataFits]
    refine inside_bind_iff (inside_getCount_iff hm) fun nElements p =>
      inside_bind_iff (inside_getByte_iff hm) fun keyType p =>
        inside_unless_iff (inside_throwProtocol _) ?_
    refine inside_bind_iff (inside_getCount_iff hm) fun nKeys p =>
      inside_unless_iff (inside_throwProtocol _) ?_
    refine inside_bind_iff (inside_times_iff fun _ => inside_getScalar_iff hm key) fun keys p =>
      inside_bind_iff (inside_getByte_iff hm) fun valueType p => ?_
    cases value.scalar? with
    | some s =>
      refine inside_unless_iff (inside_throwProtocol _) ?_
      refine inside_bind_iff (inside_getCount_iff hm) fun nValues p =>
        inside_unless_iff (inside_throwProtocol _) ?_
      exact inside_getEntries_iff fun _ p => hval field p
    | none =>
      rw [inside_ite_iff]
      refine Iff.trans (and_iff_left fun _ => inside_throwProtocol _) (imp_congr_right fun _ => ?_)
      refine inside_bind_iff (inside_getString_iff hm) fun _ p =>
        inside_bind_iff (inside_getString_iff hm) fun _ p =>
          inside_bind_iff (inside_getInt_iff hm 4) fun nValues p => ?_
      exact inside_getEntries_iff fun i p => hval (entryField field i) p

/-- What has to be in the buffer of a YaS message. -/
def layout (abi : Abi) : Layout (yas abi) m where
  Prelude := PreludeFits m
  Header _ p := HeaderFits m p
  Start _ _ := True
  Data t field _ p := DataFits m t field p
  prelude_iff := inside_checkHeaderInfo_iff hm
  header_iff info field _ := inside_getHeader_iff hm info field
  start_iff field _ := iff_of_true (inside_pure field) trivial
  data_iff t field old p := (inside_map_iff _).trans (inside_get_iff hm t field old p)
  structs _ _ _ _ _ _ := inside_throwProtocol _

end Fits

end Yas

/-! ## CmwLight -/

namespace CmwLight

open Layout

section Fits

variable (m : Memory)

/-- A header that is neither the end of a struct nor the beginning of the
outermost one: a name and a type. -/
def HeaderFits (field : Field) (p : Nat) : Prop :=
  field.subfields ≠ 0 → ¬ (field.subfields = -1 ∧ field.hierarchyDepth = 0) →
    StringFits m p ∧ After getString m p fun _ q => m.Fits q 1

/-- The entries of a map: their headers, and the data of those that have the
type that is asked for. -/
def EntriesFit {V : Type} (requestedType : UInt8) (d : V) (read : Field → V → Get (V × Field))
    (F : Field → V → Nat → Prop) : Nat → SortedMap Bytes V → Field → Nat → Prop
  | 0, _, _, _ => True
  | fuel + 1, value, field, p => p < m.size →
      HeaderFits m field p ∧ After (getHeader field) m p fun field _ =>
        field.intDataType ≠ endMarkerId → let value := value.tryEmplace field.fieldName d
          if requestedType ≠ field.intDataType ∧ requestedType ≠ otherId then
            After (moveToFieldEndBufferPosition field) m field.dataStartPosition fun _ q =>
              EntriesFit requestedType d read F fuel value field q
          else
            F field ((value.find? field.fieldName).getD d) field.dataStartPosition ∧
              After (read field ((value.find? field.fieldName).getD d)) m field.dataStartPosition
                fun r q => EntriesFit requestedType d read F fuel (value.insert field.fieldName r.1) r.2 q

def DataFits (fuel : Nat) : (t : ValueTy) → Field → t.Val → Nat → Prop
  | .scalar s, _, _, p => ScalarFits m s p
  | .array _ s, _, _, p =>
    m.Fits p 4 ∧ After (getInt 4 : Get Int) m p fun nx p =>
      m.Fits p 4 ∧ After (getInt 4 : Get Int) m p fun ny p =>
        -2 ^ 31 ≤ nx * ny ∧ nx * ny < 2 ^ 31 → ArrayFits m s (toSize (nx * ny)) p
  | .set s, _, _, p =>
    m.Fits p 4 ∧ After (getInt 4 : Get Int) m p fun n p =>
      TimesFit m (getScalar s) (ScalarFits m s) n.toNat p
  | .multiArray s n, _, _, p => MultiArrayFits m s (n + 1) p
  | .map .map .string value, field, old, p =>
    m.Fits p 4 ∧ After (getStart field) m p fun field p =>
      EntriesFit m (typeId value) value.default (get fuel value) (DataFits fuel value) fuel old
        (newFieldHeader m.size [] field.hierarchyDepth (typeId value) field.subfields) p
  | .map _ _ _, _, _, _ => True

variable {m} {p : Nat} (hm : ∀ i, m.beyond i = none)
include hm

theorem inside_getHeader_iff (field : Field) : Inside (getHeader field) m p ↔ HeaderFits m field p := by
  unfold getHeader HeaderFits
  rw [inside_position_bind]
  by_cases hstop : field.subfields = 0
  · rw [if_pos hstop]
    exact iff_of_true (inside_pure _) fun h => absurd hstop h
  · rw [if_neg hstop]
    by_cases hroot : field.subfields = -1 ∧ field.hierarchyDepth = 0
    · rw [if_pos hroot]
      exact iff_of_true (inside_pure _) fun _ h => absurd hroot h
    · rw [if_neg hroot]
      refine Iff.trans ?_ ⟨fun h _ _ => h, fun h => h hstop hroot⟩
      refine inside_bind_iff (inside_getString_iff hm) fun _ q =>
        Iff.trans (inside_bind_left fun _ _ => ?_) (inside_getByte_iff hm)
      exact inside_position_bind.mpr (inside_pure _)

theorem inside_getStart_iff (field : Field) : Inside (getStart field) m p ↔ m.Fits p 4 := by
  refine Iff.trans (inside_bind_left fun _ _ => ?_) (inside_getInt_iff hm 4)
  exact inside_position_bind.mpr (inside_pure _)

theorem inside_checkHeaderInfo_iff (info : DeserialiserInfo) :
    Inside (checkHeaderInfo info) m 0 ↔ (0 < m.size → m.Fits 0 4) := by
  unfold checkHeaderInfo
  rw [inside_position_bind, inside_size_bind]
  by_cases hsize : m.size ≤ 0
  · rw [if_pos hsize]
    exact iff_of_true (inside_fail nofun) fun h => absurd h (Nat.not_lt.mpr hsize)
  · rw [if_neg hsize]
    refine Iff.trans (inside_bind_left fun members q => ?_)
      ((inside_getInt_iff hm 4).trans ⟨fun h _ => h, fun h => h (Nat.lt_of_not_le hsize)⟩)
    refine inside_setPosition_bind.mpr (inside_ite_iff.mpr ⟨fun _ => ?_, fun _ => ?_⟩)
    · exact inside_throwProtocol _
    · exact inside_pure _

theorem inside_getEntries_iff {V : Type} {requestedType : UInt8} {d : V}
    {read : Field → V → Get (V × Field)} {F : Field → V → Nat → Prop}
    (h : ∀ field v p, Inside (read field v) m p ↔ F field v p) :
    ∀ {fuel p : Nat} {value : SortedMap Bytes V} {field : Field},
      Inside (getEntries requestedType d read fuel value field) m p ↔
        EntriesFit m requestedType d read F fuel value field p
  | 0, _, _, _ => iff_of_true (fun h => nomatch h) trivial
  | fuel + 1, p, value, field => by
    rw [getEntries, EntriesFit, inside_position_bind, inside_size_bind, inside_ite_iff]
    refine Iff.trans (and_iff_left fun _ => inside_pure _) (imp_congr_right fun _ => ?_)
    refine inside_bind_iff (inside_getHeader_iff hm field) fun field q => ?_
    rw [inside_setPosition_bind, inside_ite_iff]
    refine Iff.trans (and_iff_right fun _ => inside_pure _) (imp_congr_right fun _ => ?_)
    split_ifs with htype
    · refine Iff.trans (inside_bind_iff ?_ fun _ _ => inside_getEntries_iff h)
        (Iff.of_eq (true_and _))
      unfold moveToFieldEndBufferPosition
      refine iff_true_intro ?_
      split_ifs
      · exact fun h => nomatch h
      · exact inside_pure _
    · exact inside_bind_iff (h _ _ _) fun _ _ => inside_getEntries_iff h

theorem inside_get_iff (fuel : Nat) : (t : ValueTy) → (field : Field) → (old : t.Val) → (p : Nat) →
    (Inside (get fuel t field old) m p ↔ DataFits m fuel t field old p)
  | .scalar s, _, _, _ => (inside_map_iff _).trans (inside_getScalar_iff hm s)
  | .array n s, field, old, p => by
    rw [get, DataFits]
    refine inside_bind_iff (inside_getInt_iff hm 4) fun nx p =>
      inside_bind_iff (inside_getInt_iff hm 4) fun ny p => ?_
    unfold mulInt
    by_cases hfits : -2 ^ 31 ≤ nx * ny ∧ nx * ny < 2 ^ 31
    · rw [if_pos hfits, pure_bind]
      refine Iff.trans (inside_bind_left fun _ _ => inside_pure _) ?_
      exact (inside_getArrayInto_iff hm).trans ⟨fun h _ => h, fun h => h hfits⟩
    · rw [if_neg hfits]
      exact iff_of_true (fun h => nomatch h) fun h => absurd h hfits
  | .set s, _, _, _ => inside_bind_iff (inside_getInt_iff hm 4) fun _ _ =>
    (inside_bind_left fun _ _ => inside_pure _).trans
      (inside_times_iff fun _ => inside_getScalar_iff hm s)
  | .multiArray _ _, _, _, _ => (inside_map_iff _).trans (inside_getMultiArray_iff hm)
  | .map .map .string value, field, old, p => by
    rw [get, DataFits]
    refine inside_bind_iff (inside_getStart_iff hm field) fun field p => ?_
    rw [inside_size_bind]
    refine Iff.trans (inside_bind_left fun _ _ => inside_pure _) ?_
    exact inside_getEntries_iff hm (inside_get_iff fuel value)
  | .map .map .bool _, _, _, _ | .map .map (.int _) _, _, _, _ | .map .unorderedMap _ _, _, _, _ => iff_of_true (inside_throwProtocol _) trivial

/-- What has to be in the buffer of a CmwLight message. -/
def layout (fuel : Nat) : Layout (cmwLight fuel) m where
  Prelude := 0 < m.size → m.Fits 0 4
  Header field p := HeaderFits m field p
  Start _ p := m.Fits p 4
  Data t field old p := DataFits m fuel t field old p
  prelude_iff := inside_checkHeaderInfo_iff hm {}
  header_iff _ field _ := (inside_map_iff _).trans (inside_getHeader_iff hm field)
  start_iff field _ := inside_getStart_iff hm field
  data_iff t field old p := inside_get_iff hm fuel t field old p
  structs _ _ _ _ _ _ := inside_throwProtocol _

end Fits

end CmwLight

/-! ## Both protocols -/

/-- The protocols with lengths in the message. -/
inductive BinaryProtocol
  | yas
  | cmwLight

def BinaryProtocol.protocol (abi : Abi) (fuel : Nat) : BinaryProtocol → SerialiserProtocol
  | yas => Io.yas abi
  | cmwLight => Io.cmwLight fuel

def BinaryProtocol.layout (abi : Abi) (fuel : Nat) (data : Bytes) :
    (b : BinaryProtocol) → Layout (b.protocol abi fuel) (onlyBuffer data)
  | yas => Yas.layout (fun _ => rfl) abi
  | cmwLight => CmwLight.layout (fun _ => rfl) fuel

/-- A struct with one member. -/
def light : StructTy where
  typeName := str "Light"
  members := .leaf ⟨str "on", isIdentifier_on⟩ .direct (.scalar .bool) .nil

end OpenCmw.Io
